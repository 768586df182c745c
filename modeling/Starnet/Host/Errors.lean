import Starnet.Host.Cluster

/-! Errors for dropped messages. `dropMessage` answers every message that has a source, whatever
its type. For a request that is the service that waits in `call`; for a `RESPONSE` it is the
service that replied, and the session of the `ERROR` is one that another service chose. When no
queue that is cleared holds the `RESPONSE` of a service, every `ERROR` with a session goes to the
caller of the request that is dropped. -/

namespace Starnet.Host

open Starnet.Core Transition

variable {n : Nat} {dispatches : ServiceRef → UInt8 → Bool} {σ : Cluster n} {tr : List (Label n)}

/-- The messages of the timer, of `dropMessage`, of the socket thread and of `starnet.send`: no
reply to them is expected. -/
def Unasked (msg : BaseMsg) : Prop :=
  ∃ p : Producer, msg = p.message ∧
    ∀ srv type session text, p = .sendSession srv type session text → session.toInt32 = 0

/-- What is put in a queue is such a message, or the library of a service has sent it. -/
def Sends (σ : Cluster n) (l : Label n) : Prop :=
  ∀ k r msg, l = .core (.push k r msg) → Unasked msg ∨ ∃ a toId, (toId, msg) ∈ (σ.host a).sent

/-- A `RESPONSE` that is dropped is one of the timer. -/
def DropsNoReply (l : Label n) : Prop :=
  ∀ w r msg sm, l = .core (.drop w r msg) → msg.type = MsgType.response → msg.body = .service sm →
    sm.source = 0

/-- The service with id `toId` has sent `msg` as the request of a `call`. -/
def Called (dispatches : ServiceRef → UInt8 → Bool) (tr : List (Label n)) (toId : UInt32)
    (msg : BaseMsg) : Prop :=
  ∃ (before after : List (Label n)) (a : ServiceRef) (addr type : Int64) (buff : List UInt8)
    (σ : Cluster n), tr = before ++ .lua a (.act (.call (some (addr, type, buff)))) :: after ∧
    (cluster n dispatches).Run σ before ∧ (σ.core.srv a).id = toId ∧
    msg = Producer.luaSendSession (some toId) type (σ.host a).genid.1 buff

/-- Every `ERROR` with a session that is sent for a dropped message goes to a service that sent this
message as the request of a `call`. -/
def ReportsToCaller (dispatches : ServiceRef → UInt8 → Bool) (tr : List (Label n)) : Prop :=
  ∀ before w r msg after toId session, tr = before ++ .core (.drop w r msg) :: after →
    dropMessage msg = some (toId, errorMsg session) → session ≠ 0 →
    Called dispatches before toId msg

theorem Called.append {toId : UInt32} {msg : BaseMsg} (called : Called dispatches tr toId msg)
    (more : List (Label n)) : Called dispatches (tr ++ more) toId msg := by
  obtain ⟨before, after, a, addr, type, buff, σ, eq, run, id, request⟩ := called
  refine ⟨before, after ++ more, a, addr, type, buff, σ, ?_, run, id, request⟩
  rw [eq, List.append_assoc, List.cons_append]

/-! ### What a library sends -/

/-- A step that sends nothing or a `RESPONSE`. -/
def Answers (h h' : Host) : Prop :=
  h'.sent = h.sent ∨ ∃ toId msg, h'.sent = h.sent ++ [(toId, msg)] ∧ msg.type = MsgType.response

variable {self : UInt32} {dispatch : UInt8 → Bool} {h h' : Host} {co : Nat} {task : Task}
  {forks : Bool} {op : Op}

theorem Silent.answers (s : Silent h h') : Answers h h' := .inl s.sent

theorem respond_answers (self : UInt32) (address : Option Int64) (session : Int64)
    (buff : List UInt8) (task : Task) : Answers h (h.respond self address session buff task) := by
  cases address with
  | none => exact .inl rfl
  | some toId => exact .inr ⟨_, _, rfl, rfl⟩

theorem ret_answers (self : UInt32) (task : Task) (buff : List UInt8) :
    Answers h (h.ret self task buff) := by
  unfold Host.ret
  split
  · exact .inl rfl
  split
  · exact .inl rfl
  dsimp only
  split
  · exact .inl rfl
  · exact respond_answers ..

theorem response_answers (task : Task) : Answers h (h.response task) := by
  unfold Host.response
  split
  · exact .inl rfl
  split
  · exact .inl rfl
  dsimp only
  split <;> exact .inl rfl

theorem callClosure_answers (self : UInt32) (i : Nat) (buff : Option (List UInt8)) :
    Answers h (h.callClosure self i buff) := by
  unfold Host.callClosure
  split
  · exact .inl rfl
  split
  · exact .inl rfl
  dsimp only
  split
  · exact .inl rfl
  · exact respond_answers ..

/-- A coroutine sends the request of a `call`, or a `RESPONSE`. -/
theorem execute_sent (good : Good h) (co : Nat) (task : Task) (forks : Bool) (a : Act) :
    Answers h (h.execute self co task forks a) ∨ ∃ addr type buff toId,
      a = .call (some (addr, type, buff)) ∧ (h.execute self co task forks a).sent =
        h.sent ++ [(toId, Producer.luaSendSession (some self) type h.genid.1 buff)] := by
  cases a with
  | call args =>
    rcases args with _ | ⟨addr, type, buff⟩
    · exact .inl (.inl rfl)
    · exact .inr ⟨addr, type, buff, _, rfl, rfl⟩
  | sleep | error => exact .inl (.inl rfl)
  | fork => exact .inl (Silent.coCreate good.placed none).answers
  | timeout => exact .inl (Silent.coCreate good.genid.placed none).answers
  | ret buff => exact .inl (ret_answers self task buff)
  | response => exact .inl (response_answers task)
  | closure i buff => exact .inl (callClosure_answers self i buff)
  | finish => exact .inl (Silent.recycle h co forks).answers

/-- A message that a step of the library sends is a `RESPONSE` or the request of a `call`. -/
theorem step_sent (good : Good h) (taken : h.step self dispatch op = some h') {toId : UInt32}
    {msg : BaseMsg} (sent : h'.sent = h.sent ++ [(toId, msg)]) :
    msg.type = MsgType.response ∨ ∃ addr type buff, op = .act (.call (some (addr, type, buff))) ∧
      msg = Producer.luaSendSession (some self) type h.genid.1 buff := by
  have answers : Answers h h' → msg.type = MsgType.response := by
    rintro (same | ⟨toId', msg', eq, type⟩)
    · exact absurd (same.symm.trans sent) (by simp)
    · have last := List.append_cancel_left (eq.symm.trans sent)
      cases last
      exact type
  obtain ⟨type, session, source, -, rfl, rfl⟩ | ⟨-, rfl, rfl⟩ | ⟨-, rfl, rfl⟩ |
    ⟨co, forks, task, a, -, -, rfl, rfl⟩ := step_cases taken
  · exact .inl (answers (Silent.rawDispatchMessage good.placed ..).answers)
  · exact .inl (answers (Silent.handle good.placed ..).answers)
  · exact .inl (answers (Silent.nextFork h).answers)
  · rcases execute_sent good co task forks a with replies | ⟨addr, type, buff, toId', rfl, eq⟩
    · exact .inl (answers replies)
    · have last := List.append_cancel_left (eq.symm.trans sent)
      cases last
      exact .inr ⟨addr, type, buff, rfl, rfl⟩

theorem deliver_sent (good : Good h) (dispatch : UInt8 → Bool) (msg : BaseMsg) :
    (deliver h dispatch msg).sent = h.sent := by
  unfold deliver
  split
  · exact (Silent.rawDispatchMessage good.placed ..).sent
  · rfl

/-- What the libraries have sent are replies and the requests of calls. -/
theorem sent_of_run (run : (cluster n dispatches).Run σ tr) {a : ServiceRef} {toId : UInt32}
    {msg : BaseMsg} (sent : (toId, msg) ∈ (σ.host a).sent) :
    msg.type = MsgType.response ∨ ∃ id, Called dispatches tr id msg := by
  induction run with
  | init start =>
    subst start
    contradiction
  | @step σ σ' tr l run step ih =>
    have good := fun r => (unfailed_of_run run r).good
    have earlier : (toId, msg) ∈ (σ.host a).sent →
        msg.type = MsgType.response ∨ ∃ id, Called dispatches (tr ++ [l]) id msg := fun sent =>
      (ih sent).imp_right fun ⟨id, called⟩ => ⟨id, called.append _⟩
    have changed : ∀ {r h}, σ'.host = Function.update σ.host r h →
        (toId, msg) ∈ (σ.host a).sent ∨ a = r ∧ (toId, msg) ∈ h.sent := by
      intro r h host
      rw [host] at sent
      by_cases same : a = r
      · subst same
        rw [Function.update_self] at sent
        exact .inr ⟨rfl, sent⟩
      · rw [Function.update_of_ne same] at sent
        exact .inl sent
    cases step with
    | core => exact earlier sent
    | onMsg =>
      rcases changed rfl with old | ⟨rfl, mine⟩
      · exact earlier old
      · rw [deliver_sent (good _)] at mine
        exact earlier mine
    | lua allows taken same =>
      rcases changed rfl with old | ⟨rfl, mine⟩
      · exact earlier old
      · rw [same] at mine
        exact earlier mine
    | luaSend allows taken grown =>
      rcases changed rfl with old | ⟨rfl, mine⟩
      · exact earlier old
      · rw [grown] at mine
        rcases List.mem_append.mp mine with old | new
        · exact earlier old
        · cases List.mem_singleton.mp new
          refine (step_sent (good _) taken grown).imp_right fun ⟨addr, type, buff, op, eq⟩ => ?_
          subst op
          exact ⟨_, tr, [], _, addr, type, buff, σ, rfl, run, rfl, eq⟩

/-! ### What is dropped -/

/-- A step keeps the node or is a step of it, which pushes a message only under its own label. -/
theorem Cluster.Step.core_cases {σ' : Cluster n} {l : Label n}
    (step : Cluster.Step dispatches σ l σ') : σ'.core = σ.core ∨ ∃ e, Core.Step σ.core e σ'.core ∧
      ∀ k r msg, e = .push k r msg → l = .core (.push k r msg) := by
  cases step with
  | core h => exact .inr ⟨_, h, fun _ _ _ => congrArg Label.core⟩
  | onMsg h free => exact .inr ⟨_, .turn (.readOverload h free), nofun⟩
  | lua => exact .inl rfl
  | luaSend _ _ _ free => exact .inr ⟨_, .call (.send _ _ free), nofun⟩

/-- The node of a run, which pushes the same messages. -/
theorem core_of_run (run : (cluster n dispatches).Run σ tr) :
    ∃ events, (node n).Run σ.core events ∧
      ∀ k r msg, .push k r msg ∈ events → .core (.push k r msg) ∈ tr := by
  induction run with
  | init start =>
    subst start
    exact ⟨[], .init rfl, nofun⟩
  | step _ step ih =>
    obtain ⟨events, run, pushed⟩ := ih
    rcases step.core_cases with same | ⟨e, step, label⟩
    · exact ⟨events, same ▸ run, fun k r msg mem => List.mem_append_left _ (pushed k r msg mem)⟩
    · refine ⟨events ++ [e], run.step step, fun k r msg mem => ?_⟩
      rcases List.mem_append.mp mem with old | new
      · exact List.mem_append_left _ (pushed k r msg old)
      · rw [label k r msg (List.mem_singleton.mp new).symm]
        exact List.mem_append_right _ (List.mem_singleton_self _)

/-- A message that is dropped was in the queue. -/
theorem queued_of_drop {core core' : State n} {w : Fin n} {r : ServiceRef} {msg : BaseMsg}
    (step : Core.Step core (.drop w r msg) core') : msg ∈ (core.srv r).mq.msgQueue := by
  cases step with
  | turn step =>
    cases step with
    | clearDrop _ queue | clearSend _ queue =>
      rw [queue]
      exact List.mem_cons_self ..
  | service step | call step | wake step | sleep step | main step => cases step

theorem Unasked.session {msg : BaseMsg} (unasked : Unasked msg) {toId : UInt32} {session : Int32}
    (answers : dropMessage msg = some (toId, errorMsg session)) : session = 0 := by
  obtain ⟨p, rfl, quiet⟩ := unasked
  obtain ⟨sm, body, source, nonzero, err⟩ := dropMessage_eq_some answers
  have same : session = sm.session := by simpa [errorMsg] using err
  rw [same]
  cases p with
  | send => cases body; rfl
  | sendSession srv type session text =>
    cases body
    exact quiet _ _ _ _ rfl
  | timer | dropMessage =>
    cases body
    exact absurd source.symm nonzero
  | socket => cases body

/-- In every run in which no `RESPONSE` of a service is dropped, every `ERROR` with a session is
sent to the service that waits for an answer to the dropped message. -/
theorem reportsToCaller_of_dropsNoReply
    (run : ((cluster n dispatches).restrict fun σ l => Sends σ l ∧ DropsNoReply l).Run σ tr) :
    ReportsToCaller dispatches tr := by
  intro before w r msg after toId session eq answers nonzero
  rw [eq, List.append_cons] at run
  obtain ⟨σ₁, dropped, -⟩ := run.split
  obtain ⟨σ₀, start, step, -, noReply⟩ := dropped.last
  obtain ⟨events, node, pushed⟩ := core_of_run start.of_restrict
  have queued : msg ∈ (σ₀.core.srv r).mq.msgQueue := by
    cases step with
    | core h => exact queued_of_drop h
  have mem : msg ∈ Core.pushed r events := by
    rw [← (Ledger.run node r).balance]
    exact List.mem_append_right _ queued
  obtain ⟨k, event⟩ := push_of_mem_pushed mem
  obtain ⟨earlier, between, eq'⟩ := List.mem_iff_append.mp (pushed k r msg event)
  rw [eq', List.append_cons] at start ⊢
  obtain ⟨σ₃, sent, -⟩ := start.split
  obtain ⟨σ₂, until', -, sends, -⟩ := sent.last
  obtain ⟨sm, body, source, someone, -⟩ := dropMessage_eq_some answers
  rcases sends k r msg rfl with unasked | ⟨a, toId', sent⟩
  · exact absurd (unasked.session answers) nonzero
  · rcases sent_of_run until'.of_restrict sent with reply | ⟨id, called⟩
    · exact absurd (source.symm.trans (noReply w r msg sm rfl reply body)) someone
    · have same : id = toId := by
        obtain ⟨_, _, _, _, _, _, _, -, -, -, asked⟩ := called
        rw [asked] at body
        cases body
        exact source
      exact (same ▸ called).append _ |>.append _

/-! ### Two services -/

section

variable {σ' : Cluster n} {l : Label n}
  (run : ((cluster n dispatches).restrict fun σ l => Sends σ l ∧ DropsNoReply l).Run σ tr)
  (step : ((cluster n dispatches).after σ).Run σ' ([] ++ [l]))

include run step

/-- A run goes on with a step that meets the condition. -/
theorem run_next (sends : Sends σ l) (drops : DropsNoReply l) :
    ((cluster n dispatches).restrict fun σ l => Sends σ l ∧ DropsNoReply l).Run σ' (tr ++ [l]) := by
  obtain ⟨σ₀, start, step⟩ := step.last
  cases start.first
  exact run.step ⟨step, sends, drops⟩

theorem run_quiet (push : ∀ k r msg, l ≠ .core (.push k r msg) := by rintro _ _ _ ⟨⟩)
    (drop : ∀ w r msg, l ≠ .core (.drop w r msg) := by rintro _ _ _ ⟨⟩) :
    ((cluster n dispatches).restrict fun σ l => Sends σ l ∧ DropsNoReply l).Run σ' (tr ++ [l]) :=
  run_next run step (fun k r msg eq => absurd eq (push k r msg))
    fun w r msg _ eq => absurd eq (drop w r msg)

theorem run_push {k : Nat} {r : ServiceRef} {msg : BaseMsg} (label : l = .core (.push k r msg))
    (sent : Unasked msg ∨ ∃ a toId, (toId, msg) ∈ (σ.host a).sent) :
    ((cluster n dispatches).restrict fun σ l => Sends σ l ∧ DropsNoReply l).Run σ' (tr ++ [l]) := by
  refine run_next run step ?_ ?_
  · rintro _ _ _ eq
    cases label.symm.trans eq
    exact sent
  · rintro _ _ _ _ eq
    cases label.symm.trans eq

end

theorem unasked_request : Unasked (request 0) := by
  refine ⟨.send 0 [], rfl, ?_⟩
  rintro _ _ _ _ ⟨⟩

theorem worker_of_callStep {core core' : State n} {e : Event n} (step : CallStep core e core') :
    core'.worker = core.worker := by
  cases step <;> rfl

/-- A call that another function makes does not end its Lua code. -/
theorem executes_of_callStep {core core' : State n} {e : Event n} (step : CallStep core e core')
    {r : ServiceRef} (executes : Executes core r) : Executes core' r := by
  refine executes.imp (by rw [worker_of_callStep step]; exact id) fun running => ?_
  have kept : ∀ {r' : ServiceRef} {s : Service}, s.phase = (core.srv r').phase →
      (Function.update core.srv r' s r).phase = .running := fun {r' s} same =>
    (State.modService_keeps core r' (g := fun s => s.phase) (f := fun _ => s) same r).trans running
  cases step with
  | sendPush | sendEnter | killEnter | killMark => exact kept rfl
  | _ => exact running

section

variable {dispatches : ServiceRef → UInt8 → Bool} {core core' : State 1} {host : ServiceRef → Host}
  {tr : List (Label 1)}
  (run : ((cluster 1 dispatches).restrict fun σ l => Sends σ l ∧ DropsNoReply l).Run ⟨core, host⟩ tr)

include run

theorem next_core {e : Event 1} (h : Core.Step core e core')
    (outside : ∀ r i msg, core'.worker 0 ≠ .onMsg r i msg := by rintro _ _ _ ⟨⟩)
    (idle : ∀ r, (host r).control = .idle := by rintro (_ | _ | r) <;> rfl)
    (push : ∀ k r msg, e ≠ .push k r msg := by rintro _ _ _ ⟨⟩)
    (drop : ∀ w r msg, e ≠ .drop w r msg := by rintro _ _ _ ⟨⟩) :
    ((cluster 1 dispatches).restrict fun σ l => Sends σ l ∧ DropsNoReply l).Run ⟨core', host⟩
      (tr ++ [.core e]) :=
  run_quiet run (run_core rfl (.init rfl) h outside idle)
    (fun k r msg eq => push k r msg (Label.core.inj eq))
    fun w r msg eq => drop w r msg (Label.core.inj eq)

/-- A call of the node while Lua code is executed or not. -/
theorem next_call {e : Event 1} (h : CallStep core e core')
    (push : ∀ k r msg, e ≠ .push k r msg := by rintro _ _ _ ⟨⟩) :
    ((cluster 1 dispatches).restrict fun σ l => Sends σ l ∧ DropsNoReply l).Run ⟨core', host⟩
      (tr ++ [.core e]) := by
  refine run_quiet run (.step (.init rfl) (.core (.call h) (fun w r i msg h' => ?_)
    fun r runs ends => absurd (executes_of_callStep h runs) ends))
    (fun k r msg eq => push k r msg (Label.core.inj eq)) fun w r msg eq => ?_
  · rwa [worker_of_callStep h] at h'
  · cases Label.core.inj eq
    cases h

theorem next_push {k : Nat} {r : ServiceRef} {msg : BaseMsg} (h : core.call k = .sendPush r msg)
    (free : (core.srv r).mq.queueLock = false)
    (sent : Unasked msg ∨ ∃ a toId, (toId, msg) ∈ (host a).sent) :
    ((cluster 1 dispatches).restrict fun σ l => Sends σ l ∧ DropsNoReply l).Run
      ⟨(core.modQueue r fun mq => mq.push msg).setCall k (.sendEnter r), host⟩
      (tr ++ [.core (.push k r msg)]) := by
  have pushes : CallStep core (.push k r msg) _ := .sendPush h free
  refine run_push run (.step (.init rfl) (.core (.call pushes) (fun w r i msg h' => ?_)
    fun r runs ends => absurd (executes_of_callStep pushes runs) ends)) rfl sent
  rwa [worker_of_callStep pushes] at h'

theorem next_onMsg (r : ServiceRef) {i : Nat} {msg : BaseMsg}
    (h : core.worker 0 = .readOverload r i msg) (free : (core.srv r).mq.queueLock = false)
    (idle : (host r).control = .idle) :
    ((cluster 1 dispatches).restrict fun σ l => Sends σ l ∧ DropsNoReply l).Run
      ⟨(core.modQueue r fun mq => mq.takeOverload.2).setWorker 0 (.onMsg r i msg),
        Function.update host r (deliver (host r) (dispatches r) msg)⟩ (tr ++ [.onMsg 0 r msg]) :=
  run_quiet run (run_onMsg rfl (.init rfl) r h free idle)

theorem next_lua (r : ServiceRef) (op : Op) {h : Host} (allows : Allows core r op)
    (taken : (host r).step (core.srv r).id (dispatches r) op = some h)
    (sent : h.sent = (host r).sent) :
    ((cluster 1 dispatches).restrict fun σ l => Sends σ l ∧ DropsNoReply l).Run
      ⟨core, Function.update host r h⟩ (tr ++ [.lua r op]) :=
  run_quiet run (run_lua rfl (.init rfl) r op allows taken sent)

theorem next_luaSend (r : ServiceRef) (op : Op) (k : Nat) {h : Host} {toId : UInt32} {msg : BaseMsg}
    (allows : Allows core r op)
    (taken : (host r).step (core.srv r).id (dispatches r) op = some h)
    (sent : h.sent = (host r).sent ++ [(toId, msg)]) (free : core.call k = .idle) :
    ((cluster 1 dispatches).restrict fun σ l => Sends σ l ∧ DropsNoReply l).Run
      ⟨core.setCall k (.sendGet toId msg), Function.update host r h⟩ (tr ++ [.lua r op]) :=
  run_quiet run (run_luaSend rfl (.init rfl) r op k allows taken sent free)

end

/-- Service 1 calls service 2, which is killed: the request comes to its queue when it has already
run `OnExit`, and service 1 gets the `ERROR`. -/
theorem reportsToCaller_exited : ∃ (σ : Cluster 1) (tr : List (Label 1)),
    ((cluster 1 fun _ => (· == MsgType.lua)).restrict fun σ l => Sends σ l ∧ DropsNoReply l).Run σ tr ∧
    (∃ msg, .core (.drop 0 1 msg) ∈ tr ∧ dropMessage msg = some (1, errorMsg 1)) ∧
    ReportsToCaller (fun _ => (· == MsgType.lua)) tr := by
  have h0 : ((cluster 1 fun _ => (· == MsgType.lua)).restrict
    fun σ l => Sends σ l ∧ DropsNoReply l).Run _ _ := .init rfl
  have h1 := next_core h0 (.service (.newService _))
  have h2 := next_core h1 (.service (.newService _))
  have h3 := next_core h2 (.service (.onInit (r := 0) rfl))
  have h4 := next_lua h3 0 .socket (.inr rfl) rfl rfl
  have h5 := next_luaSend h4 0 (.act (.call (some (2, 10, [])))) 0 (.inr rfl) rfl rfl rfl
  have h6 := next_core h5 (.call (.sendFound (k := 0) (r := 1) rfl rfl))
  have h7 := next_core h6 (.call (.kill (k := 1) 2 rfl))
  have h8 := next_core h7 (.call (.killFound (k := 1) (r := 1) rfl rfl))
  have h9 := next_core h8 (.call (.killErase (k := 1) rfl))
  have h10 := next_core h9 (.call (.killName (k := 1) rfl))
  have h11 := next_core h10 (.call (.killMark (k := 1) rfl))
  have h12 := next_core h11 (.call (.killRead (k := 1) (r := 1) rfl))
  have h13 := next_core h12 (.call (.killEnter (k := 1) (r := 1) rfl))
  have h14 := next_core h13 (.sleep (.take (w := 0) (r := 1) rfl rfl))
  have h15 := next_core h14 (.turn (.readLength (w := 0) rfl rfl))
  have h16 := next_core h15 (.turn (.processNone (w := 0) (i := 0) rfl rfl rfl))
  have h17 := next_core h16 (.turn (.testExiting (w := 0) rfl rfl rfl))
  have h18 := next_push (k := 0) h17 rfl rfl (.inr ⟨0, 2, .head _⟩)
  have h19 := next_core h18 (.call (.sendEnter (k := 0) rfl))
  have h20 := next_core h19 (.turn (.onExitReturn (w := 0) (r := 1) rfl rfl))
  have h21 := run_next h20
    (run_core rfl (.init rfl) (.turn (.clearSend (w := 0) (k := 0) rfl rfl rfl rfl)))
    (by rintro _ _ _ ⟨⟩) (by rintro _ _ _ _ ⟨⟩ ⟨⟩)
  refine ⟨_, _, h21, ⟨_, List.mem_append_right _ (.head _), rfl⟩, reportsToCaller_of_dropsNoReply h21⟩

/-- Service 2 replies to a call of service 1 and kills it. Service 1 has another request before the
`RESPONSE` in its queue: it handles that one and drops the `RESPONSE`, for which service 2 gets an
`ERROR` with session 1, although it has called nobody. -/
theorem not_reportsToCaller_response : ¬ ∀ (n : Nat) (dispatches : ServiceRef → UInt8 → Bool)
    (σ : Cluster n) (tr : List (Label n)), ((cluster n dispatches).restrict Sends).Run σ tr →
    ReportsToCaller dispatches tr := by
  intro claim
  have h0 : ((cluster 1 fun _ => (· == MsgType.lua)).restrict
    fun σ l => Sends σ l ∧ DropsNoReply l).Run _ _ := .init rfl
  have h1 := next_core h0 (.service (.newService _))
  have h2 := next_core h1 (.service (.newService _))
  have h3 := next_core h2 (.service (.onInit (r := 0) rfl))
  have h4 := next_core h3 (.service (.onInit (r := 1) rfl))
  have h5 := next_core h4 (.service (.onInitReturn (r := 1) rfl))
  have h6 := next_lua h5 0 .socket (.inr rfl) rfl rfl
  have h7 := next_luaSend h6 0 (.act (.call (some (2, 10, [])))) 0 (.inr rfl) rfl rfl rfl
  have h8 := next_core h7 (.call (.sendFound (k := 0) (r := 1) rfl rfl))
  have h9 := next_push (k := 0) h8 rfl rfl (.inr ⟨0, 2, .head _⟩)
  have h10 := next_core h9 (.call (.sendEnter (k := 0) rfl))
  have h11 := next_core h10 (.wake (.wakeTest (k := 0) rfl))
  have h12 := next_core h11 (.service (.onInitReturn (r := 0) rfl))
  have h13 := next_core h12 (.sleep (.take (w := 0) (r := 1) rfl rfl))
  have h14 := next_core h13 (.turn (.readLength (w := 0) rfl rfl))
  have h15 := next_core h14 (.turn (.processPop (w := 0) (i := 0) rfl rfl rfl))
  have h16 := next_onMsg h15 1 rfl rfl rfl
  have h17 := next_call h16 (.send (k := 0) 1 (request 0) rfl)
  have h18 := next_call h17 (.sendFound (k := 0) (r := 0) rfl rfl)
  have h19 := next_push (k := 0) h18 rfl rfl (.inl unasked_request)
  have h20 := next_call h19 (.sendEnter (k := 0) rfl)
  have h21 := next_luaSend h20 1 (.act (.ret [])) 1 (.inl ⟨0, _, _, rfl⟩) rfl rfl rfl
  have h22 := next_call h21 (.sendFound (k := 1) (r := 0) rfl rfl)
  have h23 := next_push (k := 1) h22 rfl rfl (.inr ⟨1, 1, .head _⟩)
  have h24 := next_call h23 (.sendEnter (k := 1) rfl)
  have h25 := next_call h24 (.kill (k := 1) 1 rfl)
  have h26 := next_call h25 (.killFound (k := 1) (r := 0) rfl rfl)
  have h27 := next_call h26 (.killErase (k := 1) rfl)
  have h28 := next_call h27 (.killName (k := 1) rfl)
  have h29 := next_call h28 (.killMark (k := 1) rfl)
  have h30 := next_call h29 (.killRead (k := 1) (r := 0) rfl)
  have h31 := next_lua h30 1 (.act .finish) (.inl ⟨0, _, _, rfl⟩) rfl rfl
  have h32 := next_lua h31 1 .nextFork (.inl ⟨0, _, _, rfl⟩) rfl rfl
  have h33 := next_core h32 (.turn (.onMsgReturn (w := 0) rfl))
  have h34 := next_core h33 (.turn (.processDone (w := 0) rfl))
  have h35 := next_core h34 (.turn (.testLive (w := 0) rfl rfl))
  have h36 := next_core h35 (.turn (.finish (w := 0) rfl rfl))
  have h37 := next_core h36 (.sleep (.take (w := 0) (r := 0) rfl rfl))
  have h38 := next_core h37 (.turn (.readLength (w := 0) rfl rfl))
  have h39 := next_core h38 (.turn (.processPop (w := 0) (i := 0) rfl rfl rfl))
  have h40 := next_onMsg h39 0 rfl rfl rfl
  have h41 := next_lua h40 0 (.act .finish) (.inl ⟨0, _, _, rfl⟩) rfl rfl
  have h42 := next_lua h41 0 .nextFork (.inl ⟨0, _, _, rfl⟩) rfl rfl
  have h43 := next_core h42 (.turn (.onMsgReturn (w := 0) rfl))
  have h44 := next_core h43 (.turn (.processDone (w := 0) rfl))
  have h45 := next_core h44 (.turn (.testExiting (w := 0) rfl rfl rfl))
  have h46 := next_core h45 (.turn (.onExitReturn (w := 0) (r := 0) rfl rfl))
  have g0 := h46.mono fun _ _ h => h.1
  have g1 := g0.step ⟨.core (.turn (.clearSend (w := 0) (k := 1) rfl rfl rfl rfl))
    (by rintro w r i msg h; rw [Subsingleton.elim w 0] at h; contradiction)
    (by rintro (_ | _ | r) - - <;> rfl), by rintro _ _ _ ⟨⟩⟩
  obtain ⟨before, after, a, addr, type, buff, σ, eq, -, -, asked⟩ :=
    claim 1 _ _ _ g1 _ 0 0 _ [] 2 1 rfl rfl (by decide)
  have mem : Label.lua a (.act (.call (some (addr, type, buff)))) ∈
      before ++ .lua a (.act (.call (some (addr, type, buff)))) :: after :=
    List.mem_append_right _ (.head _)
  rw [← eq] at mem
  simp only [List.mem_append, List.mem_cons, List.not_mem_nil, reduceCtorEq, Label.lua.injEq,
    Op.act.injEq, Act.call.injEq, Option.some.injEq, Prod.mk.injEq, or_false, false_or,
    and_false] at mem
  rw [mem.2.2.1] at asked
  have types : (1 : Int64).toInt32.toUInt32.toUInt8 = (10 : Int64).toInt32.toUInt32.toUInt8 :=
    congrArg BaseMsg.type asked
  exact absurd types (by decide)

end Starnet.Host
