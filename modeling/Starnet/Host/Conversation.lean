import Starnet.Core.Mail
import Starnet.Host.Errors
import Starnet.Host.Origin
import Starnet.Host.Session

/-! A call and its answer, from one service to another and back. The session of a `RESPONSE` leads to
the coroutine that waits for it, and the `RESPONSE` that resumes a coroutine in `call` is the reply
of the handler of its own request. -/

namespace Starnet.Host

open Starnet.Core Transition

variable {self : UInt32} {dispatch : UInt8 → Bool} {h h' : Host} {co : Nat} {task : Task}
  {forks : Bool} {op : Op}

/-! ### The steps of a library -/

theorem resume_sessions (h : Host) (co : Nat) (ok forks : Bool) :
    (h.resume co ok forks).sessionIdCoroutine = h.sessionIdCoroutine := by
  unfold Host.resume
  dsimp only
  split <;> rfl

theorem recycle_sessions (h : Host) (co : Nat) (forks : Bool) :
    (h.recycle co forks).sessionIdCoroutine = h.sessionIdCoroutine := by
  unfold Host.recycle
  dsimp only
  split <;> rfl

theorem coCreate_sessions (placed : Placed h) (request : Option (Int32 × UInt32)) :
    (h.coCreate request).2.sessionIdCoroutine = h.sessionIdCoroutine := by
  obtain ⟨-, -, -, sessions, -⟩ := (placed.coCreate request).keeps
  exact sessions

theorem wake_sessions {session key : Int64} {ok : Bool}
    (stored : (h.wake session ok).sessionIdCoroutine key = some co) :
    h.sessionIdCoroutine key = some co := by
  unfold Host.wake at stored
  split at stored
  · rw [resume_sessions] at stored
    dsimp only at stored
    by_cases same : key = session
    · rw [same, Function.update_self] at stored
      cases stored
    · rwa [Function.update_of_ne same] at stored
  · exact stored

theorem rawDispatchMessage_sessions (placed : Placed h) {type : UInt8} {session : Int32}
    {source : UInt32} {key : Int64}
    (stored : (h.rawDispatchMessage dispatch type session source).sessionIdCoroutine key = some co) :
    h.sessionIdCoroutine key = some co := by
  unfold Host.rawDispatchMessage at stored
  split at stored
  · exact wake_sessions stored
  split at stored
  · exact wake_sessions stored
  split at stored
  · rw [resume_sessions] at stored
    rwa [← coCreate_sessions placed (some (session, source))]
  · exact stored

/-- An entry of `session_id_coroutine` was there before, or the step stores a coroutine under the
number of a new session; in `call` that is the coroutine that runs. -/
theorem step_stored (good : Good h) (taken : h.step self dispatch op = some h') {key : Int64}
    (stored : h'.sessionIdCoroutine key = some co) :
    h.sessionIdCoroutine key = some co ∨ op.Stores ∧ key = h.genid.1 ∧
      ∀ args, op = .act (.call args) → ∃ forks, h.control = .running co forks := by
  obtain ⟨type, session, source, -, rfl, rfl⟩ | ⟨-, rfl, rfl⟩ | ⟨-, rfl, rfl⟩ |
    ⟨co', forks, task, a, control, -, rfl, rfl⟩ := step_cases taken
  · exact .inl (rawDispatchMessage_sessions good.placed stored)
  · refine .inl ?_
    simp only [Host.dispatchInCoroutine] at stored
    rw [resume_sessions] at stored
    rwa [← coCreate_sessions good.placed none]
  · refine .inl ?_
    unfold Host.nextFork at stored
    split at stored
    · exact stored
    · rwa [resume_sessions] at stored
  · obtain ⟨thread, -⟩ := good.placed.runs co' forks control
    have entry : ∀ {h₁ : Host} {co₁ : Nat}, h₁.sessionIdCoroutine = h.sessionIdCoroutine →
        Function.update h₁.sessionIdCoroutine h.genid.1 (some co₁) key = some co →
        h.sessionIdCoroutine key = some co ∨ key = h.genid.1 ∧ co₁ = co := by
      intro h₁ co₁ same stored
      by_cases new : key = h.genid.1
      · rw [new, Function.update_self] at stored
        exact .inr ⟨new, Option.some.inj stored⟩
      · rw [Function.update_of_ne new, same] at stored
        exact .inl stored
    cases a with
    | call args =>
      have yields : Function.update h.sessionIdCoroutine h.genid.1 (some co') key = some co := by
        rw [← thread]
        rcases args with _ | ⟨addr, type, msg⟩ <;> exact stored
      refine (entry rfl yields).imp_right fun ⟨new, same⟩ => ⟨trivial, new, fun _ _ => ⟨forks, ?_⟩⟩
      rw [← same, control]
    | sleep =>
      have yields : Function.update h.sessionIdCoroutine h.genid.1 (some co') key = some co := by
        rw [← thread]
        exact stored
      exact (entry rfl yields).imp_right fun ⟨new, _⟩ => ⟨trivial, new, nofun⟩
    | timeout =>
      exact (entry (coCreate_sessions good.genid.placed none) stored).imp_right
        fun ⟨new, _⟩ => ⟨trivial, new, nofun⟩
    | fork =>
      refine .inl ?_
      rwa [← coCreate_sessions good.placed none]
    | ret buff => exact .inl ((ret_still self task buff).sessions ▸ stored)
    | response => exact .inl ((response_still task).sessions ▸ stored)
    | closure i buff => exact .inl ((callClosure_still self i buff).sessions ▸ stored)
    | finish => exact .inl (recycle_sessions h co' forks ▸ stored)
    | error => exact .inl stored

/-- A step that sends nothing or a reply. -/
def Responds (self : UInt32) (h h' : Host) : Prop :=
  h'.sent = h.sent ∨ ∃ r buff, h'.replies = h.replies ++ [r] ∧ h'.sent = h.sent ++
    [(r.toId, ⟨MsgType.response, .service { source := self, session := r.session, buff }⟩)]

theorem Silent.responds (s : Silent h h') : Responds self h h' := .inl s.sent

theorem respond_responds (address : Option Int64) (session : Int64) (buff : List UInt8) :
    Responds self h (h.respond self address session buff task) := by
  cases address with
  | none => exact .inl rfl
  | some toId => exact .inr ⟨_, _, rfl, rfl⟩

theorem ret_responds (buff : List UInt8) : Responds self h (h.ret self task buff) := by
  unfold Host.ret
  split
  · exact .inl rfl
  split
  · exact .inl rfl
  dsimp only
  split
  · exact .inl rfl
  · exact respond_responds ..

theorem response_responds : Responds self h (h.response task) := by
  unfold Host.response
  split
  · exact .inl rfl
  split
  · exact .inl rfl
  dsimp only
  split <;> exact .inl rfl

theorem callClosure_responds (i : Nat) (buff : Option (List UInt8)) :
    Responds self h (h.callClosure self i buff) := by
  unfold Host.callClosure
  split
  · exact .inl rfl
  split
  · exact .inl rfl
  dsimp only
  split
  · exact .inl rfl
  · exact respond_responds ..

/-- A message that a step of the library sends is the request of a `call` or a reply. -/
theorem step_sends (good : Good h) (taken : h.step self dispatch op = some h') {toId : UInt32}
    {msg : BaseMsg} (sent : h'.sent = h.sent ++ [(toId, msg)]) :
    (∃ addr type buff, op = .act (.call (some (addr, type, buff))) ∧
      toId = addr.toInt32.toUInt32 ∧
      msg = Producer.luaSendSession (some self) type h.genid.1 buff) ∨
    ∃ r buff, h'.replies = h.replies ++ [r] ∧ r.toId = toId ∧
      msg = ⟨MsgType.response, .service { source := self, session := r.session, buff }⟩ := by
  have replies : Responds self h h' → ∃ r buff, h'.replies = h.replies ++ [r] ∧ r.toId = toId ∧
      msg = ⟨MsgType.response, .service { source := self, session := r.session, buff }⟩ := by
    rintro (same | ⟨r, buff, grown, eq⟩)
    · exact absurd (same.symm.trans sent) (by simp)
    · cases List.append_cancel_left (eq.symm.trans sent)
      exact ⟨r, buff, grown, rfl, rfl⟩
  obtain ⟨type, session, source, -, rfl, rfl⟩ | ⟨-, rfl, rfl⟩ | ⟨-, rfl, rfl⟩ |
    ⟨co, forks, task, a, -, -, rfl, rfl⟩ := step_cases taken
  · exact .inr (replies (Silent.rawDispatchMessage good.placed ..).responds)
  · exact .inr (replies (Silent.handle good.placed ..).responds)
  · exact .inr (replies (Silent.nextFork h).responds)
  · cases a with
    | call args =>
      rcases args with _ | ⟨addr, type, buff⟩
      · exact .inr (replies (.inl rfl))
      · refine .inl ⟨addr, type, buff, rfl, ?_⟩
        have eq : (h.execute self co task forks (.call (some (addr, type, buff)))).sent = h.sent ++
          [(addr.toInt32.toUInt32, Producer.luaSendSession (some self) type h.genid.1 buff)] := rfl
        cases List.append_cancel_left (eq.symm.trans sent)
        exact ⟨rfl, rfl⟩
    | sleep | error => exact .inr (replies (.inl rfl))
    | fork => exact .inr (replies (Silent.coCreate good.placed none).responds)
    | timeout => exact .inr (replies (Silent.coCreate good.genid.placed none).responds)
    | ret buff => exact .inr (replies (ret_responds buff))
    | response => exact .inr (replies response_responds)
    | closure i buff => exact .inr (replies (callClosure_responds i buff))
    | finish => exact .inr (replies (Silent.recycle h co forks).responds)

/-! ### The services of a node -/

variable {n : Nat} {dispatches : ServiceRef → UInt8 → Bool} {σ σ' : Cluster n}
  {tr : List (Label n)} {l : Label n} {a b : ServiceRef}

/-- What a step of the node does to the library of service `a`. -/
inductive Cluster.HostStep (dispatches : ServiceRef → UInt8 → Bool) (σ : Cluster n) (l : Label n)
    (σ' : Cluster n) (a : ServiceRef) : Prop
  | stays (same : σ'.host a = σ.host a) (apart : ∀ op, l ≠ .lua a op)
  | takes {w msg type sm} (label : l = .onMsg w a msg)
      (call : onMsg msg = .onServiceMsg type (some sm))
      (taken : (σ.host a).step (σ.core.srv a).id (dispatches a) (.message type sm.session sm.source) =
        some (σ'.host a))
  | lua {op : Op} (label : l = .lua a op) (allows : Allows σ.core a op)
      (taken : (σ.host a).step (σ.core.srv a).id (dispatches a) op = some (σ'.host a))

theorem Cluster.Step.hostStep (step : Cluster.Step dispatches σ l σ') (a : ServiceRef) :
    Cluster.HostStep dispatches σ l σ' a := by
  cases step with
  | core => exact .stays rfl nofun
  | @onMsg w r i msg h free idle =>
    by_cases mine : a = r
    · subst mine
      have host : Function.update σ.host a (deliver (σ.host a) (dispatches a) msg) a =
          deliver (σ.host a) (dispatches a) msg := Function.update_self ..
      rcases call : Starnet.onMsg msg with ⟨type, _ | sm⟩ | _ | _
      · refine .stays (host.trans ?_) nofun
        rw [deliver, call]
      · refine .takes rfl call ?_
        refine Eq.trans ?_ (congrArg some host.symm)
        rw [deliver, call]
        exact if_pos idle
      · refine .stays (host.trans ?_) nofun
        rw [deliver, call]
      · refine .stays (host.trans ?_) nofun
        rw [deliver, call]
    · exact .stays (Function.update_of_ne mine ..) nofun
  | @lua r op h allows taken =>
    by_cases mine : a = r
    · subst mine
      have host : Function.update σ.host a h a = h := Function.update_self ..
      exact .lua rfl allows (taken.trans (congrArg some host.symm))
    · exact .stays (Function.update_of_ne mine ..) (by rintro _ ⟨⟩; exact mine rfl)
  | @luaSend r op h k toId msg allows taken =>
    by_cases mine : a = r
    · subst mine
      have host : Function.update σ.host a h a = h := Function.update_self ..
      exact .lua rfl allows (taken.trans (congrArg some host.symm))
    · exact .stays (Function.update_of_ne mine ..) (by rintro _ ⟨⟩; exact mine rfl)

/-- What the node gives to `Send` without the library is never answered, and a `call` does not use
the type of the answers. -/
structure Plain (σ : Cluster n) (l : Label n) (σ' : Cluster n) : Prop where
  unasked : ∀ e, l = .core e → ∀ k toId msg, σ.core.call k = .idle →
    σ'.core.call k = .sendGet toId msg → Unasked msg
  type : ∀ a addr type buff, l = .lua a (.act (.call (some (addr, type, buff)))) →
    type.toInt32.toUInt32.toUInt8 ≠ MsgType.response

/-- A node whose services converse by the library. -/
def conversation (n : Nat) (dispatches : ServiceRef → UInt8 → Bool) :
    System (Cluster n) (Label n) := (cluster n dispatches).confine Plain

theorem good_of_conversation (run : (conversation n dispatches).Run σ tr) (a : ServiceRef) :
    Good (σ.host a) :=
  (unfailed_of_run run.of_confine a).good

/-! ### The numbers of the sessions -/

/-- A step at which service `a` calls `Genid`. -/
def Label.stores (a : ServiceRef) : Label n → Bool
  | .lua r (.act (.call _)) | .lua r (.act .sleep) | .lua r (.act .timeout) => r == a
  | _ => false

theorem Label.stores_lua {op : Op} : (Label.lua a op : Label n).stores a = true ↔ op.Stores := by
  rcases op with _ | _ | _ | act
  · simp [Label.stores, Op.Stores]
  · simp [Label.stores, Op.Stores]
  · simp [Label.stores, Op.Stores]
  · cases act <;> simp [Label.stores, Op.Stores]

theorem Label.stores_apart (apart : ∀ op, l ≠ .lua a op) : l.stores a = false := by
  refine Bool.eq_false_iff.mpr fun stores => ?_
  unfold Label.stores at stores
  split at stores <;> first | cases stores | exact apart _ (by rw [beq_iff_eq.mp stores])

theorem counted_of_conversation (run : (conversation n dispatches).Run σ tr) (a : ServiceRef) :
    Counted (σ.host a) ∧ (σ.host a).allocated = tr.countP (Label.stores a) := by
  induction run with
  | init start =>
    cases start
    exact ⟨⟨rfl, nofun, nofun⟩, rfl⟩
  | @step σ σ' tr l run step ih =>
    obtain ⟨counted, allocated⟩ := ih
    have good := good_of_conversation run a
    rw [List.countP_append, List.countP_singleton]
    cases step.1.hostStep a with
    | stays same apart =>
      rw [same, Label.stores_apart apart]
      exact ⟨counted, allocated⟩
    | takes label call taken =>
      refine ⟨counted.step good taken, ?_⟩
      subst label
      rcases step_storing good taken with ⟨⟨⟩, -⟩ | ⟨-, quiet⟩
      exact quiet.allocated.trans allocated
    | lua label allows taken =>
      refine ⟨counted.step good taken, ?_⟩
      subst label
      rcases step_storing good taken with ⟨stores, co, storing⟩ | ⟨still, quiet⟩
      · rw [if_pos (Label.stores_lua.mpr stores), storing.allocated, allocated]
      · rw [if_neg (fun stores => still (Label.stores_lua.mp stores)), quiet.allocated, allocated]
        rfl

/-! ### What happened before -/

/-- A coroutine that waits was stored by a step that called `Genid`. -/
theorem stored_of_conversation (run : (conversation n dispatches).Run σ tr) {key : Int64} {co : Nat}
    (stored : (σ.host a).sessionIdCoroutine key = some co) :
    ∃ before σ₀ op σ₁, (conversation n dispatches).Passes σ tr before σ₀ (.lua a op) σ₁ ∧
      op.Stores ∧ key = (σ₀.host a).genid.1 ∧
      ∀ args, op = .act (.call args) → ∃ forks, (σ₀.host a).control = .running co forks := by
  induction run with
  | init start =>
    cases start
    cases stored
  | @step σ σ' tr l run step ih =>
    have earlier : (σ.host a).sessionIdCoroutine key = some co →
        ∃ before σ₀ op σ₁, (conversation n dispatches).Passes σ' (tr ++ [l]) before σ₀ (.lua a op) σ₁ ∧
          op.Stores ∧ key = (σ₀.host a).genid.1 ∧
          ∀ args, op = .act (.call args) → ∃ forks, (σ₀.host a).control = .running co forks := by
      intro stored
      obtain ⟨before, σ₀, op, σ₁, passes, facts⟩ := ih stored
      exact ⟨before, σ₀, op, σ₁, passes.next step, facts⟩
    have good := good_of_conversation run a
    cases step.1.hostStep a with
    | stays same => exact earlier (same ▸ stored)
    | takes label call taken =>
      rcases step_stored good taken stored with old | ⟨⟨⟩, -⟩
      exact earlier old
    | lua label allows taken =>
      rcases step_stored good taken stored with old | ⟨stores, new, caller⟩
      · exact earlier old
      · subst label
        exact ⟨tr, σ, _, σ', run.passes step, stores, new, caller⟩

/-- A step of the Lua code sends at most one message; other steps send none. -/
theorem Cluster.Step.sent_cases (step : Cluster.Step dispatches σ l σ') (b : ServiceRef)
    (good : Good (σ.host b)) : (σ'.host b).sent = (σ.host b).sent ∨
      ∃ op toId msg, l = .lua b op ∧ (σ'.host b).sent = (σ.host b).sent ++ [(toId, msg)] := by
  have update : ∀ {r : ServiceRef} {h : Host}, σ'.host = Function.update σ.host r h →
      (b = r → h.sent = (σ.host r).sent ∨
        ∃ op toId msg, l = .lua r op ∧ h.sent = (σ.host r).sent ++ [(toId, msg)]) →
      (σ'.host b).sent = (σ.host b).sent ∨
        ∃ op toId msg, l = .lua b op ∧ (σ'.host b).sent = (σ.host b).sent ++ [(toId, msg)] := by
    intro r h host mine
    rw [host]
    by_cases same : b = r
    · subst same
      rw [Function.update_self]
      exact mine rfl
    · rw [Function.update_of_ne same]
      exact .inl rfl
  cases step with
  | core => exact .inl rfl
  | onMsg =>
    refine update rfl ?_
    rintro rfl
    exact .inl (deliver_sent good _ _)
  | lua _ _ sent => exact update rfl fun _ => .inl sent
  | luaSend _ _ sent => exact update rfl fun _ => .inr ⟨_, _, _, rfl, sent⟩

theorem sent_of_conversation (run : (conversation n dispatches).Run σ tr) {toId : UInt32}
    {msg : BaseMsg} (sent : (toId, msg) ∈ (σ.host b).sent) :
    ∃ before σ₀ op σ₁, (conversation n dispatches).Passes σ tr before σ₀ (.lua b op) σ₁ ∧
      (σ₁.host b).sent = (σ₀.host b).sent ++ [(toId, msg)] := by
  induction run with
  | init start =>
    cases start
    cases sent
  | @step σ σ' tr l run step ih =>
    have earlier : (toId, msg) ∈ (σ.host b).sent → ∃ before σ₀ op σ₁,
        (conversation n dispatches).Passes σ' (tr ++ [l]) before σ₀ (.lua b op) σ₁ ∧
          (σ₁.host b).sent = (σ₀.host b).sent ++ [(toId, msg)] := by
      intro sent
      obtain ⟨before, σ₀, op, σ₁, passes, grown⟩ := ih sent
      exact ⟨before, σ₀, op, σ₁, passes.next step, grown⟩
    rcases step.1.sent_cases b (good_of_conversation run b) with same | ⟨op, toId', msg', rfl, grown⟩
    · exact earlier (same ▸ sent)
    · rw [grown] at sent
      rcases List.mem_append.mp sent with old | new
      · exact earlier old
      · cases List.mem_singleton.mp new
        exact ⟨tr, σ, op, σ', run.passes step, grown⟩

theorem onMsg_serviceMsg {msg : BaseMsg} {type : UInt8} {sm : ServiceMsg}
    (call : onMsg msg = .onServiceMsg type (some sm)) : msg = ⟨type, .service sm⟩ := by
  obtain ⟨type', body⟩ := msg
  unfold onMsg at call
  split at call
  · cases body with
    | service sm' =>
      cases call
      rfl
    | socket => cases call
  · split at call <;> cases call

/-- A function with a request was made when the request was taken. -/
theorem held_of_conversation (run : (conversation n dispatches).Run σ tr) {task : Task}
    (holds : (σ.host b).Holds task) {session : Int32} {source : UInt32}
    (asks : task.request = some (session, source)) :
    ∃ before σ₀ w type buff σ₁, (conversation n dispatches).Passes σ tr before σ₀
        (.onMsg w b ⟨type, .service { source, session, buff }⟩) σ₁ ∧
      (σ₀.host b).tasks = task.number ∧ type ≠ MsgType.response ∧ type ≠ MsgType.error := by
  induction run with
  | init start =>
    cases start
    rcases holds with ⟨_, has⟩ | ⟨_, mem, -⟩ | ⟨_, mem, -⟩
    · cases has
    · cases mem
    · cases mem
  | @step σ σ' tr l run step ih =>
    have earlier : (σ.host b).Holds task → ∃ before σ₀ w type buff σ₁,
        (conversation n dispatches).Passes σ' (tr ++ [l]) before σ₀
          (.onMsg w b ⟨type, .service { source, session, buff }⟩) σ₁ ∧
        (σ₀.host b).tasks = task.number ∧ type ≠ MsgType.response ∧ type ≠ MsgType.error := by
      intro holds
      obtain ⟨before, σ₀, w, type, buff, σ₁, passes, facts⟩ := ih holds
      exact ⟨before, σ₀, w, type, buff, σ₁, passes.next step, facts⟩
    have placed := (good_of_conversation run b).placed
    cases step.1.hostStep b with
    | stays same => exact earlier (same ▸ holds)
    | takes label call taken =>
      rcases step_holds placed taken holds with old | ⟨request, rfl, requests⟩
      · exact earlier old
      · obtain ⟨type, eq, notResponse, notError, -⟩ := requests session source asks
        cases eq
        subst label
        obtain rfl := onMsg_serviceMsg call
        exact ⟨tr, σ, _, _, _, σ', run.passes step, rfl, notResponse, notError⟩
    | lua label allows taken =>
      rcases step_holds placed taken holds with old | ⟨request, rfl, requests⟩
      · exact earlier old
      · obtain ⟨type, rfl, -⟩ := requests session source asks
        exact absurd allows id

/-- A message on its way is one that nobody answers, or a library has sent it to the id of its
service. -/
theorem carries_of_conversation (run : (conversation n dispatches).Run σ tr) :
    Carries (fun toId msg => Unasked msg ∨ ∃ b, (toId, msg) ∈ (σ.host b).sent) σ.core := by
  induction run with
  | init start =>
    cases start
    exact .initial
  | @step σ σ' tr l run step ih =>
    obtain ⟨events, node, -⟩ := core_of_run run.of_confine
    have born := Born.run node
    have reg := Registry.run node
    have carries : Carries (fun toId msg => Unasked msg ∨ ∃ b, (toId, msg) ∈ (σ'.host b).sent)
        σ.core := by
      refine ih.mono fun toId msg => Or.imp_right fun ⟨b, sent⟩ => ⟨b, ?_⟩
      rcases step.1.sent_cases b (good_of_conversation run b) with same | ⟨op, _, _, -, grown⟩
      · exact same ▸ sent
      · exact grown ▸ List.mem_append_left _ sent
    obtain ⟨step, plain⟩ := step
    cases step with
    | core h =>
      exact carries.step born reg h fun k toId msg idle sends =>
        .inl (plain.unasked _ rfl k toId msg idle sends)
    | onMsg h free =>
      refine carries.step born reg (.turn (.readOverload h free)) fun k toId msg idle sends => ?_
      cases idle.symm.trans sends
    | lua => exact carries
    | @luaSend r op h k toId msg allows taken sent free =>
      refine carries.step born reg (.call (.send toId msg free)) fun k' toId' msg' idle sends => ?_
      by_cases mine : k' = k
      · subst mine
        rw [State.setCall_call_same] at sends
        cases sends
        refine .inr ⟨r, ?_⟩
        show (toId, msg) ∈ (Function.update σ.host r h r).sent
        rw [Function.update_self, sent]
        exact List.mem_append_right _ (List.mem_singleton_self _)
      · rw [State.setCall_call_other _ _ _ mine] at sends
        cases idle.symm.trans sends

/-! ### A call and its answer -/

/-- After the labels `before`, coroutine `co` of service `a` calls the service with the id `toId`: it
sends `request`, and waits for the session of the request. -/
def Calls (dispatches : ServiceRef → UInt8 → Bool) (σ : Cluster n) (tr before : List (Label n))
    (a : ServiceRef) (co : Nat) (toId : UInt32) (request : BaseMsg) : Prop :=
  ∃ σ₀ σ₁ addr type buff forks, (cluster n dispatches).Passes σ tr before σ₀
      (.lua a (.act (.call (some (addr, type, buff))))) σ₁ ∧
    (σ₀.host a).control = .running co forks ∧ toId = addr.toInt32.toUInt32 ∧
    request = Producer.luaSendSession (some (σ₀.core.srv a).id) type (σ₀.host a).genid.1 buff

/-- After the labels `before`, service `b`, which has the id `toId`, takes `request` and makes function
`number` for it. -/
def Takes (dispatches : ServiceRef → UInt8 → Bool) (σ : Cluster n) (tr before : List (Label n))
    (b : ServiceRef) (toId : UInt32) (request : BaseMsg) (number : Nat) : Prop :=
  ∃ σ₀ w σ₁, (cluster n dispatches).Passes σ tr before σ₀ (.onMsg w b request) σ₁ ∧
    (σ₀.core.srv b).id = toId ∧ (σ₀.host b).tasks = number

/-- After the labels `before`, service `b` sends `answer` as the reply of function `number`. -/
def Replied (dispatches : ServiceRef → UInt8 → Bool) (σ : Cluster n) (tr before : List (Label n))
    (b : ServiceRef) (number : Nat) (answer : BaseMsg) : Prop :=
  ∃ σ₀ op σ₁ r, (cluster n dispatches).Passes σ tr before σ₀ (.lua b op) σ₁ ∧
    r.task.number = number ∧ (σ₁.host b).replies = (σ₀.host b).replies ++ [r] ∧
    (σ₁.host b).sent = (σ₀.host b).sent ++ [(r.toId, answer)]

theorem Unasked.quiet {msg : BaseMsg} (unasked : Unasked msg) {sm : ServiceMsg}
    (body : msg.body = .service sm) : sm.session = 0 ∨ sm.source = 0 := by
  obtain ⟨p, rfl, quiet⟩ := unasked
  cases p with
  | send =>
    cases body
    exact .inl rfl
  | sendSession srv type session text =>
    cases body
    exact .inl (quiet _ _ _ _ rfl)
  | timer | dropMessage =>
    cases body
    exact .inr rfl
  | socket => cases body

theorem Allows.created {core : State n} (allows : Allows core a op) (born : Born core) :
    a < core.nextRef := by
  have executes : Executes core a := by
    cases op with
    | message => exact absurd allows id
    | socket => exact allows.imp (fun ⟨w, i, msg, _, h, _⟩ => ⟨w, i, msg, h⟩) id
    | nextFork | act => exact allows
  rcases executes with ⟨w, i, msg, h⟩ | running
  · exact born.worker w a (by rw [h]; rfl)
  · exact born.unborn (by rw [running]; nofun)

/-- The services of a node that are created have their numbers as ids. -/
theorem id_of_conversation (run : (conversation n dispatches).Run σ tr)
    (allows : Allows σ.core a op) : a < σ.core.nextRef ∧ (σ.core.srv a).id = UInt32.ofNat (a + 1) := by
  obtain ⟨events, node, -⟩ := core_of_run run.of_confine
  have created := allows.created (Born.run node)
  exact ⟨created, (Numbered.run node).id a created⟩

theorem nextRef_le_of_step (step : (conversation n dispatches).step σ l σ') :
    σ.core.nextRef ≤ σ'.core.nextRef := by
  rcases step.1.core_cases with same | ⟨e, step, -⟩
  · rw [same]
  · exact step.nextRef_le

theorem lua_of_step (step : (conversation n dispatches).step σ (.lua b op) σ') :
    Allows σ.core b op ∧
      (σ.host b).step (σ.core.srv b).id (dispatches b) op = some (σ'.host b) := by
  cases step.1.hostStep b with
  | stays _ apart => exact absurd rfl (apart op)
  | takes label => cases label
  | lua label allows taken =>
    cases label
    exact ⟨allows, taken⟩

/-- A message of a library that is no answer is the request of a `call`. -/
theorem call_of_sent (run : (conversation n dispatches).Run σ tr) {toId : UInt32} {msg : BaseMsg}
    (sent : (toId, msg) ∈ (σ.host a).sent) (request : msg.type ≠ MsgType.response) :
    ∃ before σ₀ addr type buff σ₁, (conversation n dispatches).Passes σ tr before σ₀
        (.lua a (.act (.call (some (addr, type, buff))))) σ₁ ∧ toId = addr.toInt32.toUInt32 ∧
      msg = Producer.luaSendSession (some (σ₀.core.srv a).id) type (σ₀.host a).genid.1 buff := by
  obtain ⟨before, σ₀, op, σ₁, passes, grown⟩ := sent_of_conversation run sent
  obtain ⟨-, taken⟩ := lua_of_step passes.step
  rcases step_sends (good_of_conversation passes.run a) taken grown with
    ⟨addr, type, buff, rfl, address, eq⟩ | ⟨r, buff, -, -, eq⟩
  · exact ⟨before, σ₀, addr, type, buff, σ₁, passes, address, eq⟩
  · rw [eq] at request
    exact absurd rfl request

/-- An answer of a library is the reply of a function, and the function was made for the request. -/
theorem reply_of_sent (run : (conversation n dispatches).Run σ tr) {toId : UInt32} {msg : BaseMsg}
    (sent : (toId, msg) ∈ (σ.host b).sent) (answer : msg.type = MsgType.response) :
    ∃ before σ₀ op σ₁ r buff, (conversation n dispatches).Passes σ tr before σ₀ (.lua b op) σ₁ ∧
      (σ₀.host b).Holds r.task ∧ r.task.request = some (r.session, toId) ∧
      (σ₁.host b).replies = (σ₀.host b).replies ++ [r] ∧ r.toId = toId ∧
      (σ₁.host b).sent = (σ₀.host b).sent ++ [(toId, msg)] ∧
      msg = ⟨MsgType.response, .service ⟨(σ₀.core.srv b).id, r.session, buff⟩⟩ := by
  obtain ⟨before, σ₀, op, σ₁, passes, grown⟩ := sent_of_conversation run sent
  obtain ⟨allows, taken⟩ := lua_of_step passes.step
  have good := good_of_conversation passes.run b
  rcases step_sends good taken grown with ⟨addr, type, buff, rfl, -, eq⟩ |
    ⟨r, buff, replies, address, eq⟩
  · rw [eq] at answer
    exact absurd answer (passes.step.2.type _ _ _ _ rfl)
  · have new : r ∈ (σ₁.host b).replies := by
      rw [replies]
      exact List.mem_append_right _ (List.mem_singleton_self _)
    have fits := (good.step taken).replies.fits r new
    rw [address] at fits
    refine ⟨before, σ₀, op, σ₁, r, buff, passes, ?_, fits, replies, address, grown, eq⟩
    rcases step_holds good.placed taken (.inr (.inr ⟨r, new, rfl⟩)) with old | ⟨asked, eq, requests⟩
    · exact old
    · rw [eq] at fits
      obtain ⟨type, rfl, -⟩ := requests _ _ fits
      exact absurd allows id

/-- The number of the session of a step that calls `Genid`. -/
theorem number_of_passes {before : List (Label n)} {σ₀ σ₁ : Cluster n} {op : Op}
    (passes : (conversation n dispatches).Passes σ tr before σ₀ (.lua a op) σ₁) (stores : op.Stores)
    (run : (conversation n dispatches).Run σ tr) (few : (σ.host a).allocated < 2 ^ 31) :
    ∃ m, (σ₀.host a).genid.1 = keyOf m ∧ m = before.countP (Label.stores a) + 1 ∧ m < 2 ^ 31 := by
  obtain ⟨counted, allocated⟩ := counted_of_conversation passes.run a
  refine ⟨_, counted.next, by rw [allocated], ?_⟩
  rw [(counted_of_conversation run a).2] at few
  obtain ⟨after, rfl, -⟩ := passes.later
  rw [List.countP_append, List.countP_cons_of_pos (Label.stores_lua.mpr stores)] at few
  rw [allocated]
  omega

/-- A step of `call`, `sleep` or `timeout` is known by its session, also after the session has been an
`int`. -/
theorem unique_session (run : (conversation n dispatches).Run σ tr)
    (few : (σ.host a).allocated < 2 ^ 31) {before before' : List (Label n)} {σ₀ σ₁ τ₀ τ₁ : Cluster n}
    {op op' : Op} (p : (conversation n dispatches).Passes σ tr before σ₀ (.lua a op) σ₁)
    (stores : op.Stores) (p' : (conversation n dispatches).Passes σ tr before' τ₀ (.lua a op') τ₁)
    (stores' : op'.Stores) (same : (σ₀.host a).genid.1 = pushInt (τ₀.host a).genid.1.toInt32) :
    before = before' ∧ op = op' ∧ (σ₀.host a).genid.1 = (τ₀.host a).genid.1 := by
  obtain ⟨m, key, counts, small⟩ := number_of_passes p stores run few
  obtain ⟨m', key', counts', small'⟩ := number_of_passes p' stores' run few
  have back : pushInt (keyOf m').toInt32 = keyOf m' := by
    refine (pushInt_toInt32_eq_iff _).mpr ?_
    rw [UInt32.toNat_ofNat']
    omega
  rw [key, key', back] at same
  rw [key, key']
  have numbers := (keyOf_eq_iff m m').mp same
  obtain ⟨rfl, label⟩ := p.unique p' (Label.stores_lua.mpr stores) (Label.stores_lua.mpr stores')
    (by omega)
  cases label
  exact ⟨rfl, rfl, same⟩

/-- A message that a service takes, with a session and a source, was sent by a library. -/
theorem sent_of_takes (run : (conversation n dispatches).Run σ tr) {w : Fin n} {i : Nat}
    {msg : BaseMsg} (takes : σ.core.worker w = .readOverload b i msg) {sm : ServiceMsg}
    (body : msg.body = .service sm) (session : sm.session ≠ 0) (source : sm.source ≠ 0) :
    ∃ a, ((σ.core.srv b).id, msg) ∈ (σ.host a).sent := by
  rcases (carries_of_conversation run).serves w b msg (by rw [takes]; rfl) with unasked | sent
  · exact absurd (unasked.quiet body) (by simp [session, source])
  · exact sent

/-- Before `2 ^ 32` services have been created, the id of a service tells which service executes. -/
theorem executes_of_id (run : (conversation n dispatches).Run σ tr) (few : σ.core.nextRef < 2 ^ 32)
    {before : List (Label n)} {σ₀ σ₁ : Cluster n}
    (p : (conversation n dispatches).Passes σ tr before σ₀ (.lua b op) σ₁)
    (created : a < σ.core.nextRef) (same : (σ₀.core.srv b).id = (σ.core.srv a).id) : b = a := by
  obtain ⟨events, node, -⟩ := core_of_run run.of_confine
  obtain ⟨created', id⟩ := id_of_conversation p.run (lua_of_step p.step).1
  have still : b < σ.core.nextRef := Nat.lt_of_lt_of_le created'
    (p.le_of_step (f := fun σ => σ.core.nextRef) fun _ _ _ => nextRef_le_of_step)
  exact (Numbered.run node).injective few still created
    (((Numbered.run node).id b still).trans (id.symm.trans same))

theorem ofNat_ne_zero {m : Nat} (positive : 0 < m) (lt : m < 2 ^ 32) : UInt32.ofNat m ≠ 0 := by
  intro zero
  have value := congrArg UInt32.toNat zero
  rw [UInt32.toNat_ofNat', Nat.mod_eq_of_lt lt] at value
  exact positive.ne' value

/-- The coroutine that is stored for the session of a `RESPONSE` is resumed by it. -/
theorem deliver_response (good : Good h) (dispatch : UInt8 → Bool) {sm : ServiceMsg}
    (waits : h.sessionIdCoroutine (pushInt sm.session) = some co) :
    (deliver h dispatch ⟨MsgType.response, .service sm⟩).control = .running co true := by
  obtain ⟨-, task, loose⟩ := good.placed.take waits
  have call : onMsg ⟨MsgType.response, .service sm⟩ = .onServiceMsg MsgType.response (some sm) := rfl
  rw [deliver, call]
  simp only [Host.rawDispatchMessage, if_true, Host.wake, waits]
  exact (resume_loose loose true true).2.1

section

variable {dispatches : ServiceRef → UInt8 → Bool} {core core' : State 1} {host : ServiceRef → Host}
  {tr : List (Label 1)} (run : (conversation 1 dispatches).Run ⟨core, host⟩ tr)

include run

/-- A step of a node with one worker, between the steps of Lua code, in which no call starts. -/
theorem converse_core {e : Event 1} (h : Core.Step core e core')
    (outside : ∀ r i msg, core'.worker 0 ≠ .onMsg r i msg := by nofun)
    (idle : ∀ r, (host r).control = .idle := by rintro (_ | _ | r) <;> rfl)
    (starts : ∀ k toId msg, core.call k = .idle → core'.call k ≠ .sendGet toId msg := by
      rintro (_ | k) toId msg before after <;>
        first | (cases before; done) | (cases after; done) | cases before.symm.trans after) :
    (conversation 1 dispatches).Run ⟨core', host⟩ (tr ++ [.core e]) := by
  refine run.step ⟨.core h (fun w r i msg enters => ?_) fun r _ _ => idle r, ?_, nofun⟩
  · rw [Subsingleton.elim w 0] at enters
    exact absurd enters (outside r i msg)
  · exact fun _ _ k toId msg before after => absurd after (starts k toId msg before)

theorem converse_onMsg (r : ServiceRef) {i : Nat} {msg : BaseMsg}
    (h : core.worker 0 = .readOverload r i msg) (free : (core.srv r).mq.queueLock = false)
    (idle : (host r).control = .idle) :
    (conversation 1 dispatches).Run
      ⟨(core.modQueue r fun mq => mq.takeOverload.2).setWorker 0 (.onMsg r i msg),
        Function.update host r (deliver (host r) (dispatches r) msg)⟩ (tr ++ [.onMsg 0 r msg]) :=
  run.step ⟨.onMsg h free idle, nofun, nofun⟩

theorem converse_lua (r : ServiceRef) (op : Op) {h : Host} (allows : Allows core r op)
    (taken : (host r).step (core.srv r).id (dispatches r) op = some h)
    (sent : h.sent = (host r).sent)
    (type : ∀ addr type buff, op ≠ .act (.call (some (addr, type, buff))) := by nofun) :
    (conversation 1 dispatches).Run ⟨core, Function.update host r h⟩ (tr ++ [.lua r op]) :=
  run.step ⟨.lua allows taken sent, nofun, fun _ _ _ _ eq => absurd (Label.lua.inj eq).2 (type _ _ _)⟩

theorem converse_luaSend (r : ServiceRef) (op : Op) (k : Nat) {h : Host} {toId : UInt32}
    {msg : BaseMsg} (allows : Allows core r op)
    (taken : (host r).step (core.srv r).id (dispatches r) op = some h)
    (sent : h.sent = (host r).sent ++ [(toId, msg)]) (free : core.call k = .idle)
    (type : ∀ addr type buff, op = .act (.call (some (addr, type, buff))) →
      type.toInt32.toUInt32.toUInt8 ≠ MsgType.response) :
    (conversation 1 dispatches).Run ⟨core.setCall k (.sendGet toId msg), Function.update host r h⟩
      (tr ++ [.lua r op]) :=
  run.step ⟨.luaSend allows taken sent free, nofun, fun _ _ _ _ eq => type _ _ _ (Label.lua.inj eq).2⟩

end

end Starnet.Host
