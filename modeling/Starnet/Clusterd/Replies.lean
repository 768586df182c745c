import Starnet.Clusterd.Network
import Starnet.Host.Calling

/-! The frames that `clusterd` writes for one inbound request. A request names a registered service, a
handle or a name to look up. A call of a local service waits in `starnet.call`, and the frame that
answers it must fit the length of two bytes that `netpack.pack` puts in front. -/

namespace Starnet.Clusterd

open StringPack LuaNetpack Host Starnet.Core

/-! ### Local calls -/

/-- How a local service ends its work on a request: with `starnet.ret` of a string, with an error in
its handler, or because it is killed with the request in its queue. -/
inductive ServiceEnd
  | ret (text : List UInt8)
  | error
  | killed

/-- The message that the caller gets from service `self`. `suspend` raises the error of a handler
again, and `CallStarnetLua` writes it to the log. -/
def ServiceEnd.answer (self : UInt32) (request : ServiceMsg) : ServiceEnd → Option BaseMsg
  | ret text => some ⟨MsgType.response, .service ⟨self, request.session, text⟩⟩
  | error => none
  | killed => (dropMessage ⟨MsgType.lua, .service request⟩).map Prod.snd

/-- What `coroutine_yield` in `yield_call` returns when the message comes to `OnMsg`. -/
def resumes (msg : BaseMsg) : Option (Bool × List UInt8) :=
  match onMsg msg with
  | .onServiceMsg type (some sm) =>
    if type = MsgType.response then some (true, sm.buff)
    else if type = MsgType.error then some (false, [])
    else none
  | _ => none

/-- The text of an address in an error message. -/
def addrText : LuaSeri.Value → List UInt8
  | .string addr => addr
  | _ => []

variable {n : Nat}

/-- `pcall(starnet.call, handle, "lua", payload)` by service `srv`, with the library `host`. The node
is `resolving` when a name is resolved and `core` when the service is looked up, and `position` is
what `error` puts in front of its message. It is `none` when the coroutine waits for ever. -/
def localCall (position : List UInt8) (srv : ServiceRef) (host : Host) (resolving core : State n)
    (handle : LuaSeri.Value) (payload : List UInt8) (service : ServiceEnd) :
    Option (Bool × List UInt8) :=
  let s : Caller n := ⟨srv, host, builtinClass, resolving⟩
  match s.prepare handle "lua" [.string payload] with
  | .error _ => some (false, position ++ "invalid address: ".toUTF8.toList ++ addrText handle)
  | .ok args =>
    match integerArg args.addr with
    | none => none
    | some addr =>
      let toId := addr.toInt32.toUInt32
      let request : ServiceMsg := ⟨(core.srv srv).id, host.genid.1.toInt32, payload⟩
      if (core.getService toId).isSome ∧ (host.sessionGen + 1).toNat < 2 ^ 31 then
        ((service.answer toId request).bind resumes).map fun (ok, buff) =>
          if ok then (true, buff) else (false, position ++ "call failed".toUTF8.toList)
      else none

/-- The arguments of `send_session` in `starnet.call(handle, "lua", payload)`. -/
def luaArgs (addr : LuaSeri.Value) (payload : List UInt8) : CallArgs :=
  ⟨addr, some (.integer MsgType.lua.toUInt64.toInt64), .string payload⟩

theorem prepare_lua (srv : ServiceRef) (host : Host) (core : State n) (handle : LuaSeri.Value)
    (payload : List UInt8) :
    (⟨srv, host, builtinClass, core⟩ : Caller n).prepare handle "lua" [.string payload] =
      ((⟨srv, host, builtinClass, core⟩ : Caller n).resolveAddr handle).map (luaArgs · payload) := by
  have found : builtinClass "lua" =
      some ⟨some (.integer MsgType.lua.toUInt64.toInt64), packString⟩ := rfl
  unfold Caller.prepare
  cases (⟨srv, host, builtinClass, core⟩ : Caller n).resolveAddr handle with
  | error e => rfl
  | ok addr =>
    dsimp only
    rw [found]
    rfl

/-- The call has sent its request exactly when the service can answer it. -/
theorem requested_lua_iff (number2str : UInt64 → List UInt8) (srv : ServiceRef) (host : Host)
    (core : State n) (addr : LuaSeri.Value) (payload : List UInt8) :
    Caller.Requested host core
        (luaSendSession number2str core srv (luaArgs addr payload) host.genid.1) ↔
      ∃ toId, integerArg addr = some toId ∧ (core.getService toId.toInt32.toUInt32).isSome ∧
        (host.sessionGen + 1).toNat < 2 ^ 31 := by
  rw [Caller.requested_iff]
  constructor
  · rintro ⟨⟨toId, address, found⟩, -, -, session⟩
    exact ⟨toId, address, found, session⟩
  · rintro ⟨toId, address, found, session⟩
    exact ⟨⟨toId, address, found⟩, ⟨_, rfl⟩, Or.inl ⟨payload, rfl⟩, session⟩

/-- A service that fails never answers, and the others answer with what they return. -/
theorem resumes_answer (self : UInt32) (request : ServiceMsg) (service : ServiceEnd) :
    (service.answer self request).bind resumes =
      match service with
      | .ret text => some (true, text)
      | .error | .killed => none := by
  cases service with
  | ret text => rfl
  | error => rfl
  | killed =>
    have notSocket : MsgType.lua ≠ MsgType.socket := by decide
    rw [ServiceEnd.answer, dropMessage, if_neg notSocket]
    dsimp only
    split <;> rfl

/-! ### Answers -/

/-- A value of `tonumber`: an integer, or a float by its bits. -/
inductive Numeral
  | integer (i : Int64)
  | float (bits : UInt64)

def Numeral.value : Numeral → LuaSeri.Value
  | integer i => .integer i
  | float bits => .number bits

/-- The value in `register_name`. -/
def Handle.value : Handle → LuaSeri.Value
  | source id => .integer (pushUInt32 id)
  | string addr => .string addr

/-- What the address of a request stands for. -/
inductive Target
  | name (handle : Option Handle)
  | invalid
  | service (handle : LuaSeri.Value)

namespace Node

/-- The branches of `handle_request`. -/
def target (s : Node) (tonumber : List UInt8 → Option Numeral) (h : Handler) : Target :=
  if h.addr = [] then .name (s.registerName h.payload)
  else
    let handle :=
      if h.addr.head? = some 0x40 then (s.registerName (h.addr.drop 1)).map Handle.value
      else (tonumber h.addr).map Numeral.value
    match handle with
    | none => .invalid
    | some handle => .service handle

/-- The data that a name query gets. -/
def nameData : Option Handle → List UInt8
  | some handle => handle.tostring
  | none => "name not found".toUTF8.toList

def invalidData (addr : List UInt8) : List UInt8 := "invalid address: ".toUTF8.toList ++ addr

/-- The arguments that `handle_request` gives to `pack_response` beside the session, when the local
call comes to `called`. -/
def response (s : Node) (tonumber : List UInt8 → Option Numeral)
    (called : LuaSeri.Value → Option (Bool × List UInt8)) (h : Handler) :
    Option (Bool × List UInt8) :=
  match s.target tonumber h with
  | .name handle => some (handle.isSome, nameData handle)
  | .invalid => some (false, invalidData h.addr)
  | .service handle => if h.session = 0 then none else called handle

/-- The frames that `handle_request` writes. -/
def frames (s : Node) (tonumber : List UInt8 → Option Numeral)
    (called : LuaSeri.Value → Option (Bool × List UInt8)) (h : Handler) : List (List UInt8) :=
  ((s.response tonumber called h).bind fun (ok, data) => packResponse h.session ok data).toList

end Node

/-! ### The connection -/

theorem Node.answerAtOnce_eq (s : Node) (tonumber : List UInt8 → Option Numeral) (h : Handler) :
    s.answerAtOnce (fun addr => (tonumber addr).map fun _ => .source 0) h =
      match s.target tonumber h with
      | .name handle => some (handle.isSome, nameData handle)
      | .invalid => some (false, invalidData h.addr)
      | .service _ => none := by
  unfold answerAtOnce target
  by_cases query : h.addr = []
  · rw [if_pos query, if_pos query]
    cases s.registerName h.payload <;> rfl
  · rw [if_neg query, if_neg query]
    by_cases named : h.addr.head? = some 0x40
    · rw [if_pos named, if_pos named]
      cases s.registerName (h.addr.drop 1) <;> rfl
    · rw [if_neg named, if_neg named]
      dsimp only
      cases tonumber h.addr <;> rfl

section

variable {ι : Type*} {σ : Net ι} {i : ι} {h : Handler} {e : End}

theorem Net.write_flight {fd : Int32} (isOpen : (σ.node i).conns fd = some e) (msg : List UInt8) :
    (σ.write i fd msg).flight e.conn e.side = σ.flight e.conn e.side ++ [msg] := by
  simp only [Net.write, isOpen, Net.setFlight, Function.update_self]

theorem Net.respond_flight (isOpen : (σ.node i).conns h.fd = some e) (ok : Bool)
    (data : List UInt8) : (σ.respond i h ok data).flight e.conn e.side =
      σ.flight e.conn e.side ++ (packResponse h.session ok data).toList := by
  unfold Net.respond
  dsimp only
  cases packResponse h.session ok data with
  | none => simp
  | some msg =>
    exact Net.write_flight (σ := { σ with replied := σ.replied ++ [(i, h, ok, data)] }) isOpen msg

variable [DecidableEq ι] {tonumber : List UInt8 → Option Numeral}
  {called : LuaSeri.Value → Option (Bool × List UInt8)}

/-- The frames of a request that needs no answer of a service, on its connection. -/
theorem Net.frames_at_once (isOpen : (σ.node i).conns h.fd = some e)
    (noCall : ∀ handle, (σ.node i).target tonumber h = .service handle → h.session = 0) :
    (σ.handleRequest (fun addr => (tonumber addr).map fun _ => .source 0) i h).flight e.conn
        e.side =
      σ.flight e.conn e.side ++ (σ.node i).frames tonumber called h := by
  unfold Net.handleRequest Node.frames Node.response
  rw [Node.answerAtOnce_eq]
  cases place : (σ.node i).target tonumber h with
  | name handle => exact Net.respond_flight isOpen _ _
  | invalid => exact Net.respond_flight isOpen _ _
  | service handle =>
    dsimp only
    rw [if_pos (noCall handle place), if_pos (noCall handle place)]
    simp

/-- A request that calls a service waits for it, and its frames are written when the call is over. -/
theorem Net.frames_later {handle : LuaSeri.Value} {ok : Bool} {data : List UInt8}
    (place : (σ.node i).target tonumber h = .service handle) (session : h.session ≠ 0)
    (ended : called handle = some (ok, data)) {σ' : Net ι}
    (isOpen : (σ'.node i).conns h.fd = some e) :
    h ∈ ((σ.handleRequest (fun addr => (tonumber addr).map fun _ => .source 0) i h).node
        i).handlers ∧
      (σ'.respond i h ok data).flight e.conn e.side =
        σ'.flight e.conn e.side ++ (σ.node i).frames tonumber called h := by
  constructor
  · unfold Net.handleRequest
    rw [Node.answerAtOnce_eq, place]
    dsimp only
    rw [if_neg session, Net.setNode_node]
    exact List.mem_append_right _ List.mem_cons_self
  · rw [Net.respond_flight isOpen, Node.frames, Node.response, place]
    dsimp only
    rw [if_neg session, ended]
    rfl

end

/-! ### The length of a frame -/

/-- The longest data that fit in a response. -/
def maxData : Nat := 65526

theorem packResponse_isSome_iff {session : Int64} (low : -2 ^ 31 ≤ session.toInt)
    (high : session.toInt < 2 ^ 31) (ok : Bool) (data : List UInt8) :
    (packResponse session ok data).isSome ↔ data.length ≤ maxData := by
  have first : packInt 4 session.toInt =
      some (toBytes 4 (session.toInt % 256 ^ 4).toNat) := if_pos ⟨low, high⟩
  have second : packInt 1 (if ok then 1 else 0) =
      some (toBytes 1 ((if ok then 1 else 0 : Int) % 256 ^ 1).toNat) := by
    cases ok <;> rfl
  rw [packResponse, first, second]
  simp only [Option.bind_eq_bind, Option.bind_some, StringPack.packString]
  split
  · rw [Option.bind_some, lpack]
    simp only [List.length_append, length_toBytes]
    split
    · next long => exact iff_of_false (by simp [Except.toOption]) (by unfold maxData; omega)
    · next fits => exact iff_of_true rfl (by unfold maxData; omega)
  · next long => exact iff_of_false (by simp) (by unfold maxData; omega)

/-- The session of a request that was unpacked. -/
theorem session_of_unpackRequest {buff addr payload : List UInt8} {session : Int64}
    (unpack : unpackRequest buff = some (addr, session, payload)) :
    -2 ^ 31 ≤ session.toInt ∧ session.toInt < 2 ^ 31 := by
  simp only [unpackRequest, Option.bind_eq_bind, Option.bind_eq_some_iff] at unpack
  obtain ⟨⟨addr', rest⟩, -, ⟨x, rest'⟩, number, ⟨payload', rest''⟩, -, eq⟩ := unpack
  cases eq
  unfold unpackInt at number
  split at number
  · cases number
  · obtain ⟨rfl, -⟩ := Prod.mk.inj (Option.some.inj number)
    dsimp only
    have low := Int.le_bmod (x := (ofBytes (rest.take 4) : Int)) (m := 256 ^ 4) (by decide)
    have high := Int.bmod_lt (x := (ofBytes (rest.take 4) : Int)) (m := 256 ^ 4) (by decide)
    rw [Int64.toInt_ofInt_of_le (by omega) (by omega)]
    omega

/-! ### One frame for every call -/

/-- The request gets one response with its session if it is a call, and none if it is a push. -/
def AnswersOnce (session : Int64) (frames : List (List UInt8)) : Prop :=
  if 0 < session then
    ∃ frame ok data, frames = [frame] ∧ unpackResponse (frame.drop 2) = some (session, ok, data)
  else frames = []

variable {position payload : List UInt8} {srv : ServiceRef} {host : Host} {resolving core : State n}
  {handle : LuaSeri.Value} {service : ServiceEnd}

/-- The local call ends, with data that fit: the name is not found, or the service is, and it
returns. -/
def Ends (position : List UInt8) (srv : ServiceRef) (host : Host) (resolving core : State n)
    (handle : LuaSeri.Value) (service : ServiceEnd) : Prop :=
  match (⟨srv, host, builtinClass, resolving⟩ : Caller n).resolveAddr handle with
  | .error _ =>
    (position ++ "invalid address: ".toUTF8.toList ++ addrText handle).length ≤ maxData
  | .ok addr =>
    (∃ toId, integerArg addr = some toId ∧ (core.getService toId.toInt32.toUInt32).isSome ∧
      (host.sessionGen + 1).toNat < 2 ^ 31) ∧ ∃ text, service = .ret text ∧ text.length ≤ maxData

/-- The condition for the due answer: the data for a query or an invalid address fit when it comes
with a session, and do not when it comes without one; a call with a session ends. -/
def Answerable (target : Target) (h : Handler) (ends : LuaSeri.Value → Prop) : Prop :=
  match target with
  | .name handle => 0 < h.session ↔ (Node.nameData handle).length ≤ maxData
  | .invalid => 0 < h.session ↔ (Node.invalidData h.addr).length ≤ maxData
  | .service handle => 0 < h.session → ends handle

/-- A local call is over with data that fit exactly when it ends. -/
theorem localCall_iff (payload : List UInt8) : (∃ ok data,
    localCall position srv host resolving core handle payload service = some (ok, data) ∧
      data.length ≤ maxData) ↔ Ends position srv host resolving core handle service := by
  unfold localCall Ends
  dsimp only
  rw [prepare_lua]
  cases (⟨srv, host, builtinClass, resolving⟩ : Caller n).resolveAddr handle with
  | error e =>
    constructor
    · rintro ⟨ok, data, eq, fits⟩
      cases eq
      exact fits
    · exact fun fits => ⟨_, _, rfl, fits⟩
  | ok addr =>
    simp only [Except.map, luaArgs, resumes_answer]
    cases integerArg addr with
    | none => simp
    | some toId =>
      simp only [Option.some.injEq, exists_eq_left']
      split
      · next found =>
        rw [and_iff_right found]
        cases service with
        | ret text => simp
        | error | killed => simp
      · next lost => exact iff_of_false (by simp) fun both => lost both.1

/-- A response is one frame with its session if its data fit, and no frame otherwise. -/
theorem answersOnce_response_iff {session : Int64} (low : -2 ^ 31 ≤ session.toInt)
    (high : session.toInt < 2 ^ 31) (ok : Bool) (data : List UInt8) :
    AnswersOnce session (packResponse session ok data).toList ↔
      (0 < session ↔ data.length ≤ maxData) := by
  rw [← packResponse_isSome_iff low high ok data]
  cases packed : packResponse session ok data with
  | none => simp [AnswersOnce]
  | some frame =>
    have unpacked := unpackResponse_packResponse packed
    simp only [AnswersOnce, Option.toList_some, Option.isSome_some, iff_true]
    constructor
    · intro once
      by_contra push
      rw [if_neg push] at once
      cases once
    · intro call
      rw [if_pos call]
      exact ⟨frame, ok, data, rfl, unpacked⟩

/-- The frames for a request are the due answer exactly when the condition holds. -/
theorem answersOnce_iff {buff addr payload : List UInt8} {session : Int64}
    (unpack : unpackRequest buff = some (addr, session, payload)) (nonneg : 0 ≤ session) (s : Node)
    (tonumber : List UInt8 → Option Numeral) (fd : Int32) (conn : Nat) (position : List UInt8)
    (srv : ServiceRef) (host : Host) (resolving core : State n)
    (service : LuaSeri.Value → ServiceEnd) :
    let h : Handler := ⟨fd, addr, session, payload, conn⟩
    AnswersOnce session (s.frames tonumber
        (fun handle => localCall position srv host resolving core handle payload (service handle)) h) ↔
      Answerable (s.target tonumber h) h
        (fun handle => Ends position srv host resolving core handle (service handle)) := by
  intro h
  obtain ⟨low, high⟩ := session_of_unpackRequest unpack
  unfold Node.frames Node.response Answerable
  cases s.target tonumber h with
  | name handle => exact answersOnce_response_iff low high _ _
  | invalid => exact answersOnce_response_iff low high _ _
  | service handle =>
    dsimp only
    rw [← localCall_iff payload]
    by_cases push : session = 0
    · have noCall : ¬ 0 < session := by rw [push]; decide
      rw [if_pos push]
      simp [AnswersOnce, h, noCall]
    · have call : 0 < session := Int64.lt_of_le_of_ne nonneg (Ne.symm push)
      rw [if_neg push, forall_prop_of_true call]
      cases localCall position srv host resolving core handle payload (service handle) with
      | none => simp [AnswersOnce, call]
      | some answer =>
        refine (answersOnce_response_iff low high answer.1 answer.2).trans ?_
        rw [iff_true_left call]
        exact ⟨fun fits => ⟨_, _, rfl, fits⟩, fun ⟨_, _, eq, fits⟩ => by cases eq; exact fits⟩

/-- A request that calls service 1, which returns two bytes. -/
theorem answersOnce_iff_short :
    AnswersOnce 7 (Node.initial.frames (fun _ => some (.integer 1)) (fun handle =>
      localCall [] 0 {} (State.initial 1).newService (State.initial 1).newService handle [9]
        (.ret [8, 8])) ⟨5, [49], 7, [9], 0⟩) ↔
      Answerable (Node.initial.target (fun _ => some (.integer 1)) ⟨5, [49], 7, [9], 0⟩)
        ⟨5, [49], 7, [9], 0⟩ fun handle =>
        Ends [] 0 {} (State.initial 1).newService (State.initial 1).newService handle
          (.ret [8, 8]) :=
  answersOnce_iff
    (show unpackRequest [0, 1, 49, 0, 0, 0, 7, 0, 0, 0, 1, 9] = some ([49], 7, [9]) by decide)
    (by decide) .initial (fun _ => some (.integer 1)) 5 0 [] 0 {} _ _ fun _ => .ret [8, 8]

/-- Service 1 returns 65527 bytes. -/
theorem not_answersOnce_long : ¬∀ (buff addr payload : List UInt8) (session : Int64),
    unpackRequest buff = some (addr, session, payload) → 0 ≤ session → ∀ (s : Node)
    (tonumber : List UInt8 → Option Numeral) (fd : Int32) (conn : Nat) (position : List UInt8)
    (srv : ServiceRef) (host : Host) (resolving core : State 1)
    (service : LuaSeri.Value → ServiceEnd),
    AnswersOnce session (s.frames tonumber
      (fun handle => localCall position srv host resolving core handle payload (service handle))
      ⟨fd, addr, session, payload, conn⟩) := by
  intro all
  have once := all [0, 1, 49, 0, 0, 0, 7, 0, 0, 0, 1, 9] [49] [9] 7 (by decide) (by decide)
    .initial (fun _ => some (.integer 1)) 5 0 [] 0 {} (State.initial 1).newService
    (State.initial 1).newService fun _ => .ret (List.replicate (maxData + 1) 0)
  have frames : ∀ data, Node.initial.frames (fun _ => some (.integer 1)) (fun handle =>
      localCall [] 0 {} (State.initial 1).newService (State.initial 1).newService handle [9]
        (.ret data)) ⟨5, [49], 7, [9], 0⟩ = (packResponse 7 true data).toList := fun _ => rfl
  rw [frames, answersOnce_response_iff (by decide) (by decide), List.length_replicate] at once
  exact absurd (once.mp (by decide)) (Nat.not_succ_le_self maxData)

end Starnet.Clusterd
