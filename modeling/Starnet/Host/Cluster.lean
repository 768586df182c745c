import Starnet.Host.Run
import Starnet.Core.Step

/-! The node and the host libraries of its services. `OnMsg` gives a message to the host library of
a service, and what the Lua code of the service sends is a call of `Starnet::Send` of the node. The
node alone may start any call of `Starnet::Send`, which stands for the timer, the socket thread and
`starnet.send`. -/

namespace Starnet.Host

open Starnet.Core

/-- A node and the host library of each service. -/
structure Cluster (n : Nat) where
  core : State n
  host : ServiceRef → Host

/-- The labels of the steps: of the node, of `OnMsg`, and of the Lua code of a service. -/
inductive Label (n : Nat)
  | core (e : Event n)
  | onMsg (w : Fin n) (srv : ServiceRef) (msg : BaseMsg)
  | lua (srv : ServiceRef) (op : Op)
  deriving DecidableEq, Repr

variable {n : Nat}

/-- A thread executes Lua code of a service: a worker in `OnMsg`, or the thread of `NewService` in
`OnInit`. -/
def Executes (σ : State n) (r : ServiceRef) : Prop :=
  (∃ w i msg, σ.worker w = .onMsg r i msg) ∨ (σ.srv r).phase = .running

/-- The steps of the library inside `OnMsg` and `OnInit`: callbacks of a socket message and of
`starnet.start`, and what follows a dispatch. -/
def Allows (σ : State n) (r : ServiceRef) : Op → Prop
  | .message .. => False
  | .socket => (∃ w i msg sm, σ.worker w = .onMsg r i msg ∧ onMsg msg = .onSocketMsg (some sm)) ∨
      (σ.srv r).phase = .running
  | .nextFork | .act _ => Executes σ r

/-- `OnServiceMsg` passes a message to `dispatch_message`. The callbacks of a socket message are
steps of their own, and a null pointer has no meaning. -/
def deliver (h : Host) (dispatch : UInt8 → Bool) (msg : BaseMsg) : Host :=
  match onMsg msg with
  | .onServiceMsg type (some sm) => h.rawDispatchMessage dispatch type sm.session sm.source
  | _ => h

namespace Cluster

def setHost (σ : Cluster n) (r : ServiceRef) (h : Host) : Cluster n :=
  { σ with host := Function.update σ.host r h }

/-- One step; `dispatch` says for which types a service has a dispatch function. A thread leaves the
Lua code of a service when its library is idle. -/
inductive Step (dispatch : ServiceRef → UInt8 → Bool) : Cluster n → Label n → Cluster n → Prop
  | core {σ : Cluster n} {e core} (h : Core.Step σ.core e core)
      (outside : ∀ w r i msg, core.worker w = .onMsg r i msg → σ.core.worker w = .onMsg r i msg)
      (leaves : ∀ r, Executes σ.core r → ¬ Executes core r → (σ.host r).control = .idle) :
      Step dispatch σ (.core e) { σ with core }
  | onMsg {σ : Cluster n} {w r i msg} (h : σ.core.worker w = .readOverload r i msg)
      (free : (σ.core.srv r).mq.queueLock = false) (idle : (σ.host r).control = .idle) :
      Step dispatch σ (.onMsg w r msg) { σ.setHost r (deliver (σ.host r) (dispatch r) msg) with
        core := (σ.core.modQueue r fun mq => mq.takeOverload.2).setWorker w (.onMsg r i msg) }
  | lua {σ : Cluster n} {r op h} (allows : Allows σ.core r op)
      (taken : (σ.host r).step (σ.core.srv r).id (dispatch r) op = some h)
      (sent : h.sent = (σ.host r).sent) : Step dispatch σ (.lua r op) (σ.setHost r h)
  | luaSend {σ : Cluster n} {r op h k toId msg} (allows : Allows σ.core r op)
      (taken : (σ.host r).step (σ.core.srv r).id (dispatch r) op = some h)
      (sent : h.sent = (σ.host r).sent ++ [(toId, msg)]) (free : σ.core.call k = .idle) :
      Step dispatch σ (.lua r op)
        { σ.setHost r h with core := σ.core.setCall k (.sendGet toId msg) }

end Cluster

/-- A node with `n` workers, no service and empty libraries. -/
def cluster (n : Nat) (dispatch : ServiceRef → UInt8 → Bool) :
    Transition.System (Cluster n) (Label n) where
  init σ := σ = { core := State.initial n, host := fun _ => {} }
  step := Cluster.Step dispatch

/-! ### No coroutine is resumed to fail -/

variable {self : UInt32} {dispatch : UInt8 → Bool} {h h' : Host} {op : Op}

theorem resume_failed {co : Nat} {ok : Bool} (forks : Bool)
    (passes : ok = true ∨ ∀ task, h.status co ≠ .waiting task) :
    (h.resume co ok forks).failed = h.failed := by
  unfold Host.resume
  dsimp only
  split
  · rfl
  · rfl
  · next task waiting =>
    rcases passes with rfl | passes
    · rfl
    · exact absurd waiting (passes task)
  · rfl
  · rfl
  · rfl

theorem handle_failed (placed : Placed h) (request : Option (Int32 × UInt32))
    (session address : Option Int64) (forks : Bool) :
    (((h.coCreate request).2.setContext (h.coCreate request).1 session address).resume
      (h.coCreate request).1 true forks).failed = h.failed := by
  obtain ⟨-, -, -, -, -, -, -, -, -, failed, -⟩ := (placed.coCreate request).keeps
  rw [resume_failed forks (Or.inl rfl)]
  exact failed

theorem execute_failed (good : Good h) (co : Nat) (task : Task) (forks : Bool) (a : Act) :
    (h.execute self co task forks a).failed = h.failed := by
  cases a with
  | call args => rcases args with _ | ⟨addr, type, msg⟩ <;> rfl
  | sleep | error => rfl
  | fork =>
    obtain ⟨-, -, -, -, -, -, -, -, -, failed, -⟩ := (good.placed.coCreate none).keeps
    exact failed
  | timeout =>
    obtain ⟨-, -, -, -, -, -, -, -, -, failed, -⟩ := (good.genid.placed.coCreate none).keeps
    exact failed
  | ret buff => exact (ret_still self task buff).failed
  | response => exact (response_still task).failed
  | closure i buff => exact (callClosure_still self i buff).failed
  | finish =>
    show (h.recycle co forks).failed = h.failed
    unfold Host.recycle
    dsimp only
    split <;> rfl

theorem wake_failed (session : Int64) : (h.wake session true).failed = h.failed := by
  unfold Host.wake
  split
  · exact resume_failed true (Or.inl rfl)
  · rfl

/-- Only an `ERROR` message resumes a waiting coroutine with `ok` false; a coroutine of the fork
queue does not wait. -/
theorem step_failed (good : Good h) (taken : h.step self dispatch op = some h')
    (noError : ∀ session source, op ≠ .message MsgType.error session source) :
    h'.failed = h.failed := by
  obtain ⟨type, session, source, -, rfl, rfl⟩ | ⟨-, rfl, rfl⟩ | ⟨-, rfl, rfl⟩ |
    ⟨co, forks, task, a, -, -, rfl, rfl⟩ := step_cases taken
  · unfold Host.rawDispatchMessage
    split
    · exact wake_failed _
    split
    · next error => exact absurd (congrArg (Op.message · session source) error) (noError _ _)
    split
    · exact handle_failed good.placed ..
    · rfl
  · exact handle_failed good.placed ..
  · unfold Host.nextFork
    split
    · rfl
    · next co rest queue =>
      obtain ⟨-, task, created, -⟩ := good.placed.takeFork queue
      refine resume_failed true (Or.inr fun task' waiting => ?_)
      cases created.symm.trans waiting
  · exact execute_failed good co task forks a

/-- `OnMsg` passes requests and responses to the library, and no `ERROR`. -/
theorem onMsg_type {msg : BaseMsg} {type : UInt8} {sm : Option ServiceMsg}
    (call : onMsg msg = .onServiceMsg type sm) : type ≠ MsgType.error := by
  unfold onMsg at call
  split at call
  · next served =>
    cases call
    rcases served with eq | eq <;> rw [eq] <;> decide
  · split at call <;> cases call

/-- No coroutine of the library was resumed with `ok` false. -/
structure Unfailed (h : Host) : Prop where
  good : Good h
  failed : h.failed = []

theorem Unfailed.step (u : Unfailed h) (taken : h.step self dispatch op = some h')
    (noError : ∀ session source, op ≠ .message MsgType.error session source) : Unfailed h' :=
  ⟨u.good.step taken, (step_failed u.good taken noError).trans u.failed⟩

theorem Unfailed.deliver (u : Unfailed h) (idle : h.control = .idle) (dispatch : UInt8 → Bool)
    (msg : BaseMsg) : Unfailed (deliver h dispatch msg) := by
  unfold Host.deliver
  split
  · next type sm call =>
    have taken : h.step 0 dispatch (.message type sm.session sm.source) =
        some (h.rawDispatchMessage dispatch type sm.session sm.source) := by
      exact if_pos idle
    refine u.step taken fun session source eq => ?_
    cases eq
    exact onMsg_type call rfl
  · exact u

theorem Allows.noError {σ : State n} {r : ServiceRef} (allows : Allows σ r op) (session : Int32)
    (source : UInt32) : op ≠ .message MsgType.error session source := by
  rintro rfl
  exact allows

theorem unfailed_setHost {σ : Cluster n} (all : ∀ r, Unfailed (σ.host r)) {r : ServiceRef}
    (u : Unfailed h) (r' : ServiceRef) : Unfailed ((σ.setHost r h).host r') := by
  simp only [Cluster.setHost]
  by_cases same : r' = r
  · rw [same, Function.update_self]
    exact u
  · rw [Function.update_of_ne same]
    exact all r'

variable {dispatches : ServiceRef → UInt8 → Bool} {σ σ' : Cluster n} {tr : List (Label n)}

theorem Cluster.Step.unfailed {l : Label n} (step : Cluster.Step dispatches σ l σ')
    (all : ∀ r, Unfailed (σ.host r)) (r : ServiceRef) : Unfailed (σ'.host r) := by
  cases step with
  | core => exact all r
  | onMsg h free idle => exact unfailed_setHost all ((all _).deliver idle ..) r
  | lua allows taken | luaSend allows taken =>
    exact unfailed_setHost all ((all _).step taken allows.noError) r

theorem unfailed_of_run (run : (cluster n dispatches).Run σ tr) (r : ServiceRef) :
    Unfailed (σ.host r) := by
  induction run generalizing r with
  | init start =>
    subst start
    exact ⟨.empty, rfl⟩
  | step _ step all => exact step.unfailed all r

/-! ### A dropped request -/

/-- Live service `a` has coroutine `co` suspended for a session, and the request with that session
is in the queue of service `b`, which worker `w` is about to clear. -/
structure CallDropped (σ : Cluster n) (a b : ServiceRef) (w : Fin n) (co : Nat) (session : Int32) :
    Prop where
  live : (σ.core.srv a).isExiting = false
  suspended : ∃ task, (σ.host a).status co = .waiting task
  stored : (σ.host a).sessionIdCoroutine (pushInt session) = some co
  positive : 0 < session
  clears : σ.core.worker w = .clear b
  queued : ∃ buff, (⟨MsgType.lua, .service ⟨(σ.core.srv a).id, session, buff⟩⟩ : BaseMsg) ∈
    (σ.core.srv b).mq.msgQueue

/-- No message for service `a` is on its way, queued or in a worker. -/
structure Settled (σ : Cluster n) (a : ServiceRef) : Prop where
  sent : ∀ k, σ.core.call k = .idle
  empty : (σ.core.srv a).mq.msgQueue = []
  processed : ∀ w, (σ.core.worker w).held ≠ some a

section

variable {dispatches : ServiceRef → UInt8 → Bool} {core core' : State 1} {host : ServiceRef → Host}
  {tr : List (Label 1)} {S : Transition.System (Cluster 1) (Label 1)}
  (steps : S.step = Cluster.Step dispatches) (run : S.Run ⟨core, host⟩ tr)

include steps run

/-- A step of a node with one worker, between the steps of Lua code. -/
theorem run_core {e : Event 1} (h : Core.Step core e core')
    (outside : ∀ r i msg, core'.worker 0 ≠ .onMsg r i msg := by nofun)
    (idle : ∀ r, (host r).control = .idle := by rintro (_ | _ | r) <;> rfl) :
    S.Run ⟨core', host⟩ (tr ++ [.core e]) := by
  refine run.step ?_
  rw [steps]
  refine .core h (fun w r i msg enters => ?_) fun r _ _ => idle r
  rw [Subsingleton.elim w 0] at enters
  exact absurd enters (outside r i msg)

theorem run_onMsg (r : ServiceRef) {i : Nat} {msg : BaseMsg}
    (h : core.worker 0 = .readOverload r i msg) (free : (core.srv r).mq.queueLock = false)
    (idle : (host r).control = .idle) :
    S.Run ⟨(core.modQueue r fun mq => mq.takeOverload.2).setWorker 0 (.onMsg r i msg),
      Function.update host r (deliver (host r) (dispatches r) msg)⟩ (tr ++ [.onMsg 0 r msg]) := by
  refine run.step ?_
  rw [steps]
  exact .onMsg h free idle

theorem run_lua (r : ServiceRef) (op : Op) {h : Host} (allows : Allows core r op)
    (taken : (host r).step (core.srv r).id (dispatches r) op = some h)
    (sent : h.sent = (host r).sent) :
    S.Run ⟨core, Function.update host r h⟩ (tr ++ [.lua r op]) := by
  refine run.step ?_
  rw [steps]
  exact .lua allows taken sent

theorem run_luaSend (r : ServiceRef) (op : Op) (k : Nat) {h : Host} {toId : UInt32} {msg : BaseMsg}
    (allows : Allows core r op)
    (taken : (host r).step (core.srv r).id (dispatches r) op = some h)
    (sent : h.sent = (host r).sent ++ [(toId, msg)]) (free : core.call k = .idle) :
    S.Run ⟨core.setCall k (.sendGet toId msg), Function.update host r h⟩ (tr ++ [.lua r op]) := by
  refine run.step ?_
  rw [steps]
  exact .luaSend allows taken sent free

end

/-- Service 2 has two requests in its queue when it is killed: it handles the first, and the
second, a call of service 1, is dropped. Service 1 then processes the `ERROR` and its coroutine
still waits. -/
theorem run_dropped : ∃ (σ σ' : Cluster 1) (tr tr' : List (Label 1)),
    (cluster 1 fun _ => (· == MsgType.lua)).Run σ tr ∧ CallDropped σ 0 1 0 0 1 ∧
    ((cluster 1 fun _ => (· == MsgType.lua)).after σ).Run σ' tr' ∧
    .core (.cleared 0 1) ∈ tr' ∧ Settled σ' 0 ∧ (∃ task, (σ'.host 0).status 0 = .waiting task) := by
  have h0 : (cluster 1 fun _ => (· == MsgType.lua)).Run _ _ := .init rfl
  have h1 := run_core rfl h0 (.service (.newService _))
  have h2 := run_core rfl h1 (.service (.newService _))
  have h3 := run_core rfl h2 (.service (.onInit (r := 0) rfl))
  have h4 := run_core rfl h3 (.service (.onInit (r := 1) rfl))
  have h5 := run_core rfl h4 (.service (.onInitReturn (r := 1) rfl))
  have h6 := run_core rfl h5 (.call (.send (k := 0) 2 (request 0) rfl))
  have h7 := run_core rfl h6 (.call (.sendFound (k := 0) (r := 1) rfl rfl))
  have h8 := run_core rfl h7 (.call (.sendPush (k := 0) rfl rfl))
  have h9 := run_core rfl h8 (.call (.sendEnter (k := 0) rfl))
  have h10 := run_core rfl h9 (.wake (.wakeTest (k := 0) rfl))
  have h11 := run_lua rfl h10 0 .socket (Or.inr rfl) rfl rfl
  have h12 := run_luaSend rfl h11 0 (.act (.call (some (2, 10, [])))) 0 (Or.inr rfl) rfl rfl rfl
  have h13 := run_core rfl h12 (.call (.sendFound (k := 0) (r := 1) rfl rfl))
  have h14 := run_core rfl h13 (.call (.sendPush (k := 0) rfl rfl))
  have h15 := run_core rfl h14 (.call (.sendEnter (k := 0) rfl))
  have h16 := run_core rfl h15 (.service (.onInitReturn (r := 0) rfl))
  have h17 := run_core rfl h16 (.call (.kill (k := 0) 2 rfl))
  have h18 := run_core rfl h17 (.call (.killFound (k := 0) (r := 1) rfl rfl))
  have h19 := run_core rfl h18 (.call (.killErase (k := 0) rfl))
  have h20 := run_core rfl h19 (.call (.killName (k := 0) rfl))
  have h21 := run_core rfl h20 (.call (.killMark (k := 0) rfl))
  have h22 := run_core rfl h21 (.call (.killRead (k := 0) (r := 1) rfl))
  have h23 := run_core rfl h22 (.sleep (.take (w := 0) (r := 1) rfl rfl))
  have h24 := run_core rfl h23 (.turn (.readLength (w := 0) rfl rfl))
  have h25 := run_core rfl h24 (.turn (.processPop (w := 0) (i := 0) rfl rfl rfl))
  have h26 := run_onMsg rfl h25 1 rfl rfl rfl
  have h27 := run_lua rfl h26 1 (.act .finish) (Or.inl ⟨0, _, _, rfl⟩) rfl rfl
  have h28 := run_lua rfl h27 1 .nextFork (Or.inl ⟨0, _, _, rfl⟩) rfl rfl
  have h29 := run_core rfl h28 (.turn (.onMsgReturn (w := 0) rfl))
  have h30 := run_core rfl h29 (.turn (.processDone (w := 0) rfl))
  have h31 := run_core rfl h30 (.turn (.testExiting (w := 0) rfl rfl rfl))
  have h32 := run_core rfl h31 (.turn (.onExitReturn (w := 0) (r := 1) rfl rfl))
  have g0 := h32.here
  have g1 := run_core rfl g0 (.turn (.clearSend (w := 0) (k := 0) rfl rfl rfl rfl))
  have g2 := run_core rfl g1 (.call (.sendFound (k := 0) (r := 0) rfl rfl))
  have g3 := run_core rfl g2 (.call (.sendPush (k := 0) rfl rfl))
  have g4 := run_core rfl g3 (.call (.sendEnter (k := 0) rfl))
  have g5 := run_core rfl g4 (.wake (.wakeTest (k := 0) rfl))
  have g6 := run_core rfl g5 (.turn (.clearResume (w := 0) rfl rfl))
  have g7 := run_core rfl g6 (.turn (.clearDone (w := 0) rfl rfl))
  have g8 := run_core rfl g7 (.sleep (.take (w := 0) (r := 0) rfl rfl))
  have g9 := run_core rfl g8 (.turn (.readLength (w := 0) rfl rfl))
  have g10 := run_core rfl g9 (.turn (.processPop (w := 0) (i := 0) rfl rfl rfl))
  have g11 := run_onMsg rfl g10 0 rfl rfl rfl
  have g12 := run_core rfl g11 (.turn (.onMsgReturn (w := 0) rfl))
  have g13 := run_core rfl g12 (.turn (.processDone (w := 0) rfl))
  have g14 := run_core rfl g13 (.turn (.testLive (w := 0) rfl rfl))
  have g15 := run_core rfl g14 (.turn (.finish (w := 0) rfl rfl))
  refine ⟨_, _, _, _, h32, ?_, g15, ?_, ?_, ⟨0, none⟩, rfl⟩
  · refine ⟨rfl, ⟨_, rfl⟩, rfl, by decide, rfl, [], ?_⟩
    exact List.mem_singleton.mpr rfl
  · simp
  · refine ⟨by rintro (_ | k) <;> rfl, rfl, fun w => ?_⟩
    rw [Subsingleton.elim w 0]
    nofun

/-- In no run is a coroutine resumed from `call` or `sleep` with `ok` false: no `call` fails. -/
theorem call_never_fails (run : (cluster n dispatches).Run σ tr) (r : ServiceRef) (co : Nat) :
    co ∉ (σ.host r).failed := by
  rw [(unfailed_of_run run r).failed]
  exact nofun

theorem call_never_fails_dropped : ∃ (σ σ' : Cluster 1) (tr tr' : List (Label 1)),
    CallDropped σ 0 1 0 0 1 ∧ (cluster 1 fun _ => (· == MsgType.lua)).Run σ' (tr ++ tr') ∧
    Settled σ' 0 ∧ 0 ∉ (σ'.host 0).failed := by
  obtain ⟨σ, σ', tr, tr', run, dropped, later, -, settled, -⟩ := run_dropped
  exact ⟨σ, σ', tr, tr', dropped, run.append later, settled, call_never_fails (run.append later) 0 0⟩

/-- The `ERROR` for a dropped request reaches its caller, whose coroutine is not resumed. -/
theorem not_call_fails : ¬ ∀ (dispatches : ServiceRef → UInt8 → Bool) (σ σ' : Cluster 1)
    (tr tr' : List (Label 1)) (a b : ServiceRef) (w : Fin 1) (co : Nat) (session : Int32),
    (cluster 1 dispatches).Run σ tr → CallDropped σ a b w co session →
    ((cluster 1 dispatches).after σ).Run σ' tr' → .core (.cleared w b) ∈ tr' → Settled σ' a →
    co ∈ (σ'.host a).failed := by
  intro claim
  obtain ⟨σ, σ', tr, tr', run, dropped, later, cleared, settled, -⟩ := run_dropped
  have failed := claim _ σ σ' tr tr' 0 1 0 0 1 run dropped later cleared settled
  rw [(unfailed_of_run (run.append later) 0).failed] at failed
  cases failed

end Starnet.Host
