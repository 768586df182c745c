import Starnet.Core.Producer
import Mathlib.Logic.Function.Basic

/-! The Lua host library of a service (`starnet.lua`), with `genid`, `send_session` and `timeout`
of `lua-starnet.cpp` under it. The functions that coroutines execute are arbitrary: which functions
of the library they call, and how they end, is up to the run. Coroutines are numbered in the order
of `coroutine.create`, and the functions given to `co_create` in the order of its calls. -/

namespace Starnet.Host

/-- A function given to `co_create`; a handler has the session and the source of its request. -/
structure Task where
  number : Nat
  request : Option (Int32 × UInt32)
  deriving DecidableEq, Repr

/-- Where a coroutine stands. `created` is before its main function, which is no function if the
coroutine was resumed while it was in the pool; `waiting` is in `yield_call` or `sleep`. -/
inductive Status
  | created (main : Option Task)
  | running (task : Task)
  | waiting (task : Task)
  | pooled
  | dead
  deriving DecidableEq, Repr

/-- The function that a coroutine executes or will execute. -/
def Status.task : Status → Option Task
  | created main => main
  | running task | waiting task => some task
  | pooled | dead => none

/-- A `RESPONSE` that `starnet.ret` or a closure of `starnet.response` sent, and the function that
called `ret` or `response`. -/
structure Reply where
  toId : UInt32
  session : Int32
  task : Task
  deriving DecidableEq, Repr

/-- A closure that `starnet.response` returned, and the function that called it. -/
structure Closure where
  session : Int64
  address : Option Int64
  sent : Bool
  task : Task
  deriving DecidableEq, Repr

/-- A coroutine that waits for the session of a call of `Genid`, and its key in
`session_id_coroutine`. -/
structure Wait where
  number : Nat
  key : Int64
  co : Nat
  deriving DecidableEq, Repr

/-- What the thread of the service executes: nothing, the loop over the fork queue, or a coroutine;
the loop follows a coroutine that `dispatch_message` resumed. -/
inductive Control
  | idle
  | forks
  | running (co : Nat) (forks : Bool)
  deriving DecidableEq, Repr

def Control.after (forks : Bool) : Control := if forks then .forks else .idle

end Host

open Host in
/-- The host library of a service. The fields from `status` on are the Lua runtime and the history:
`failed` are the coroutines that were resumed from `yield_call` or `sleep` with `ok` false. -/
structure Host where
  sessionGen : UInt32 := 0
  pool : List Nat := []
  sessionIdCoroutine : Int64 → Option Nat := fun _ => none
  sessionCoroutineId : Nat → Option Int64 := fun _ => none
  sessionCoroutineAddress : Nat → Option Int64 := fun _ => none
  forkQueue : List Nat := []
  runningThread : Option Nat := none
  closures : List Closure := []
  control : Control := .idle
  status : Nat → Status := fun _ => .dead
  created : Nat := 0
  tasks : Nat := 0
  starts : List Nat := []
  sent : List (UInt32 × BaseMsg) := []
  replies : List Reply := []
  allocated : Nat := 0
  outstanding : List Wait := []
  failed : List Nat := []

namespace Host

/-! ### The C functions -/

/-- `lua_pushinteger` of a `uint32_t`. -/
def pushUInt32 (x : UInt32) : Int64 := x.toUInt64.toInt64

/-- `lua_pushinteger` of an `int`. -/
def pushInt (x : Int32) : Int64 := x.toInt64

/-- `LuaAPI::Genid`. -/
def genid (h : Host) : Int64 × Host :=
  let sessionGen := h.sessionGen + 1
  (pushUInt32 sessionGen, { h with sessionGen, allocated := h.allocated + 1 })

/-- `LuaAPI::SendSession` of service `self`. -/
def sendSession (h : Host) (self : UInt32) (toId type session : Int64) (buff : List UInt8) : Host :=
  { h with sent := h.sent ++
      [(toId.toInt32.toUInt32, Producer.luaSendSession (some self) type session buff)] }

/-! ### Coroutines -/

def setStatus (h : Host) (co : Nat) (status : Status) : Host :=
  { h with status := Function.update h.status co status }

/-- `coroutine_resume` from outside a coroutine. `ok` is the first value passed to the coroutine, as
far as `yield_call` and `sleep` test it. -/
def resume (h : Host) (co : Nat) (ok forks : Bool) : Host :=
  let h := { h with
    runningThread := some co
    control := .after forks
    outstanding := h.outstanding.filter (·.co ≠ co) }
  match h.status co with
  | .created (some task) => { h.setStatus co (.running task) with
      starts := h.starts ++ [task.number]
      control := .running co forks }
  | .created none => h.setStatus co .dead
  | .waiting task => { h.setStatus co (.running task) with
      control := .running co forks
      failed := if ok then h.failed else h.failed ++ [co] }
  | .pooled => h.setStatus co (.created none)
  | .running _ | .dead => h

/-- `co_create`: a new coroutine, or the last one in the pool, which is resumed to take its
function. -/
def coCreate (h : Host) (request : Option (Int32 × UInt32)) : Nat × Host :=
  let task : Task := ⟨h.tasks, request⟩
  let h := { h with tasks := h.tasks + 1 }
  match h.pool.getLast? with
  | none => (h.created, { h.setStatus h.created (.created (some task)) with created := h.created + 1 })
  | some co =>
    let running := h.runningThread
    let h := { h with pool := h.pool.dropLast, runningThread := some co }
    let h := match h.status co with
      | .pooled => h.setStatus co (.created (some task))
      | _ => h
    (co, { h with runningThread := running })

/-- `session_id_coroutine[session] = co`. -/
def store (h : Host) (session : Int64) (co : Option Nat) : Host :=
  { h with
    sessionIdCoroutine := Function.update h.sessionIdCoroutine session co
    outstanding := h.outstanding ++ (co.map (Wait.mk h.allocated session)).toList }

/-- `session_coroutine_id[co] = session` and `session_coroutine_address[co] = address`. -/
def setContext (h : Host) (co : Nat) (session address : Option Int64) : Host :=
  { h with
    sessionCoroutineId := Function.update h.sessionCoroutineId co session
    sessionCoroutineAddress := Function.update h.sessionCoroutineAddress co address }

/-! ### Messages -/

/-- `coroutine_resume` of the coroutine that waits for a session, if there is one. -/
def wake (h : Host) (session : Int64) (ok : Bool) : Host :=
  match h.sessionIdCoroutine session with
  | some co =>
    { h with sessionIdCoroutine := Function.update h.sessionIdCoroutine session none }.resume co ok true
  | none => { h with control := .forks }

/-- `raw_dispatch_message`; `dispatch` says for which types a dispatch function is registered. -/
def rawDispatchMessage (h : Host) (dispatch : UInt8 → Bool) (type : UInt8) (session : Int32)
    (source : UInt32) : Host :=
  if type = MsgType.response then h.wake (pushInt session) true
  else if type = MsgType.error then h.wake (pushInt session) false
  else if dispatch type then
    let (co, h) := h.coCreate (some (session, source))
    (h.setContext co (some (pushInt session)) (some (pushUInt32 source))).resume co true true
  else { h with control := .forks }

/-- One round of the loop over the fork queue in `starnet.dispatch_message`. -/
def nextFork (h : Host) : Host :=
  match h.forkQueue with
  | [] => { h with control := .idle }
  | co :: rest => { h with forkQueue := rest }.resume co false true

/-- `dispatch_in_coroutine`. -/
def dispatchInCoroutine (h : Host) : Host :=
  let (co, h) := h.coCreate none
  (h.setContext co (some 0) (some 0)).resume co true false

/-! ### What a coroutine does -/

/-- `yield_call` and the end of `sleep`, in coroutine `co`. -/
def yieldCall (h : Host) (session : Int64) (co : Nat) (task : Task) (forks : Bool) : Host :=
  { (h.store session h.runningThread).setStatus co (.waiting task) with control := .after forks }

/-- The `RESPONSE` of `ret` and of a closure; `send_session` rejects an address that is nil. -/
def respond (h : Host) (self : UInt32) (address : Option Int64) (session : Int64)
    (buff : List UInt8) (task : Task) : Host :=
  match address with
  | none => h
  | some toId => { h.sendSession self toId 1 session buff with
      replies := h.replies ++ [⟨toId.toInt32.toUInt32, session.toInt32, task⟩] }

/-- `starnet.ret`; the error "No session" leaves the state as it is. -/
def ret (h : Host) (self : UInt32) (task : Task) (buff : List UInt8) : Host :=
  match h.runningThread with
  | none => h
  | some co =>
    match h.sessionCoroutineId co with
    | none => h
    | some session =>
      let h := { h with sessionCoroutineId := Function.update h.sessionCoroutineId co none }
      if session = 0 then h else h.respond self (h.sessionCoroutineAddress co) session buff task

/-- `starnet.response`; the closure for a message without a session does nothing and is left out. -/
def response (h : Host) (task : Task) : Host :=
  match h.runningThread with
  | none => h
  | some co =>
    match h.sessionCoroutineId co with
    | none => h
    | some session =>
      let h := { h with sessionCoroutineId := Function.update h.sessionCoroutineId co none }
      if session = 0 then h
      else { h with closures := h.closures ++
          [⟨session, h.sessionCoroutineAddress co, false, task⟩] }

/-- A call of closure `i`; `send_session` rejects a message that is no string. -/
def callClosure (h : Host) (self : UInt32) (i : Nat) (buff : Option (List UInt8)) : Host :=
  match h.closures[i]? with
  | none => h
  | some c =>
    if c.sent then h
    else
      let h := { h with closures := h.closures.set i { c with sent := true } }
      match buff with
      | none => h
      | some buff => h.respond self c.address c.session buff c.task

/-- The end of the main function in `co_create`. -/
def recycle (h : Host) (co : Nat) (forks : Bool) : Host :=
  let h := if (h.sessionCoroutineAddress co).isSome then h.setContext co none none else h
  { h.setStatus co .pooled with pool := h.pool ++ [co], control := .after forks }

/-- What a coroutine does next. The arguments of `call` are those that `send_session` accepts, if it
does. -/
inductive Act
  | call (args : Option (Int64 × Int64 × List UInt8))
  | sleep
  | fork
  | timeout
  | ret (buff : List UInt8)
  | response
  | closure (i : Nat) (buff : Option (List UInt8))
  | finish
  | error
  deriving DecidableEq, Repr

/-- A step of coroutine `co`, which executes `task`. -/
def execute (h : Host) (self : UInt32) (co : Nat) (task : Task) (forks : Bool) : Act → Host
  | .call args =>
    let (session, h) := h.genid
    let h := match args with
      | some (addr, type, msg) => h.sendSession self addr type session msg
      | none => h
    h.yieldCall session co task forks
  | .sleep =>
    let (session, h) := h.genid
    h.yieldCall session co task forks
  | .fork =>
    let (forked, h) := h.coCreate none
    { h with forkQueue := h.forkQueue ++ [forked] }
  | .timeout =>
    let (session, h) := h.genid
    let (timed, h) := h.coCreate none
    h.store session (some timed)
  | .ret buff => h.ret self task buff
  | .response => h.response task
  | .closure i buff => h.callClosure self i buff
  | .finish => h.recycle co forks
  | .error => { h.setStatus co .dead with control := .after forks }

/-- The steps of the library: a message from `OnServiceMsg`, a dispatch of `dispatch_socket` or
`start`, a round of the loop over the fork queue, and what the running coroutine does. -/
inductive Op
  | message (type : UInt8) (session : Int32) (source : UInt32)
  | socket
  | nextFork
  | act (a : Act)
  deriving DecidableEq, Repr

def step (self : UInt32) (dispatch : UInt8 → Bool) (h : Host) : Op → Option Host
  | .message type session source =>
    if h.control = .idle then some (h.rawDispatchMessage dispatch type session source) else none
  | .socket => if h.control = .idle then some h.dispatchInCoroutine else none
  | .nextFork => if h.control = .forks then some h.nextFork else none
  | .act a =>
    match h.control with
    | .running co forks =>
      match h.status co with
      | .running task => some (h.execute self co task forks a)
      | _ => none
    | _ => none

/-- A service that starts with an empty library. -/
def library (self : UInt32) (dispatch : UInt8 → Bool) : Transition.System Host Op where
  init h := h = {}
  step h op h' := h.step self dispatch op = some h'

end Host

end Starnet
