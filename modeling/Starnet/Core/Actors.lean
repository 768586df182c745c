import Starnet.Core.Token
import Starnet.Lib.Actors

/-! A node as a system of actors. The workers, the global queue and the locks of a node implement
services that serve their messages one at a time: whatever the number of workers, a run of the node
shows what a run of the actors shows. -/

namespace Starnet.Core

open Transition Actors

variable {n : Nat} {σ σ' : State n} {e : Event n} {r : ServiceRef}

/-- What the steps of a node show of its services. -/
def Event.shows : Event n → Option (Label ServiceRef BaseMsg)
  | push _ r msg => some (.push r msg)
  | process _ r msg => some (.serve r msg)
  | exit _ r => some (.exit r)
  | drop _ r msg => some (.drop r msg)
  | cleared _ r => some (.clear r)
  | _ => none

/-- The message that a worker has taken from a queue and whose `OnMsg` has not returned. -/
def WorkerPc.serves : WorkerPc → Option (ServiceRef × BaseMsg)
  | readOverload r _ msg | onMsg r _ msg => some (r, msg)
  | _ => none

theorem WorkerPc.held_of_serves {pc : WorkerPc} {msg : BaseMsg} (h : pc.serves = some (r, msg)) :
    pc.held = some r := by
  cases pc <;> cases h <;> rfl

theorem WorkerPc.held_of_leaving {pc : WorkerPc} (h : pc.exiting = some r) : pc.held = some r := by
  cases pc <;> cases h <;> rfl

theorem WorkerPc.exiting_of_serves {pc : WorkerPc} {msg : BaseMsg}
    (h : pc.serves = some (r, msg)) : pc.exiting = none := by
  cases pc <;> cases h <;> rfl

/-- What service `r` does as an actor. -/
inductive Acts (σ : State n) (r : ServiceRef) : Phase BaseMsg → Prop
  | idle (live : (σ.srv r).exited = false)
      (free : ∀ w msg, (σ.worker w).serves ≠ some (r, msg)) : Acts σ r .idle
  | serving {w : Fin n} {msg : BaseMsg} (serves : (σ.worker w).serves = some (r, msg)) :
      Acts σ r (.serving msg)
  | leaving {w : Fin n} (exiting : (σ.worker w).exiting = some r) : Acts σ r .leaving
  | gone (exited : (σ.srv r).exited = true) (left : ∀ w, (σ.worker w).exiting ≠ some r) :
      Acts σ r .gone

/-- Each service is an actor with the message queue as its mailbox. -/
def Abstracts (σ : State n) (s : ServiceRef → Actor BaseMsg) : Prop :=
  ∀ r, (s r).mailbox = (σ.srv r).mq.msgQueue ∧ Acts σ r (s r).phase

namespace Acts

variable {phase : Phase BaseMsg}

/-- A step that changes nothing of what `r` does. -/
theorem keep (acts : Acts σ r phase) (exited : (σ'.srv r).exited = (σ.srv r).exited)
    (serves : ∀ w msg, (σ'.worker w).serves = some (r, msg) ↔
      (σ.worker w).serves = some (r, msg))
    (exiting : ∀ w, (σ'.worker w).exiting = some r ↔ (σ.worker w).exiting = some r) :
    Acts σ' r phase := by
  cases acts with
  | idle live free => exact .idle (exited.trans live) fun w msg h => free w msg ((serves w msg).mp h)
  | serving h => exact .serving ((serves _ _).mpr h)
  | leaving h => exact .leaving ((exiting _).mpr h)
  | gone dead left => exact .gone (exited.trans dead) fun w h => left w ((exiting w).mp h)

/-- A worker that holds `r` outside the exit path and takes no message knows it idle. -/
theorem idle_of_held (acts : Acts σ r phase) (t : Token σ r) {w : Fin n}
    (held : (σ.worker w).held = some r) (exiting : (σ.worker w).exiting = none)
    (serves : (σ.worker w).serves = none) : phase = .idle := by
  have live := t.not_exited held exiting
  cases acts with
  | idle => rfl
  | serving h =>
    rw [t.unique (WorkerPc.held_of_serves h) held, serves] at h
    cases h
  | leaving h =>
    rw [t.unique (WorkerPc.held_of_leaving h) held, exiting] at h
    cases h
  | gone exited =>
    rw [live] at exited
    cases exited

theorem serving_of_serves (acts : Acts σ r phase) (t : Token σ r) {w : Fin n} {msg : BaseMsg}
    (serves : (σ.worker w).serves = some (r, msg)) : phase = .serving msg := by
  have held := WorkerPc.held_of_serves serves
  have exiting := WorkerPc.exiting_of_serves serves
  cases acts with
  | idle _ free => exact absurd serves (free w msg)
  | serving h =>
    rw [t.unique (WorkerPc.held_of_serves h) held, serves] at h
    cases h
    rfl
  | leaving h =>
    rw [t.unique (WorkerPc.held_of_leaving h) held, exiting] at h
    cases h
  | gone exited =>
    rw [t.not_exited held exiting] at exited
    cases exited

theorem leaving_of_exiting (acts : Acts σ r phase) (t : Token σ r) {w : Fin n}
    (exiting : (σ.worker w).exiting = some r) : phase = .leaving := by
  have held := WorkerPc.held_of_leaving exiting
  cases acts with
  | idle live =>
    rw [(t.phase w held).mp exiting] at live
    cases live
  | serving h =>
    have none := WorkerPc.exiting_of_serves h
    rw [t.unique (WorkerPc.held_of_serves h) held, exiting] at none
    cases none
  | leaving => rfl
  | gone _ left => exact absurd exiting (left w)

end Acts

/-- The actors in state `s` can do what a step with event `e` to `σ'` shows. -/
def Follows (s : ServiceRef → Actor BaseMsg) (e : Event n) (σ' : State n) : Prop :=
  ∃ s' labels, ((actors ServiceRef BaseMsg).after s).Run s' labels ∧
    labels.reduceOption = e.shows.toList ∧ Abstracts σ' s'

/-- When the worker that holds `r` lets go of it, no worker has it. -/
theorem Token.none_after (t : Token σ r) {w : Fin n} (held : (σ.worker w).held = some r)
    {σ₁ : State n} {pc : WorkerPc} {has : WorkerPc → Prop} (same : σ₁.worker = σ.worker)
    (holds : ∀ {pc}, has pc → pc.held = some r) (without : ¬ has pc) (w' : Fin n) :
    ¬ has ((σ₁.setWorker w pc).worker w') := by
  by_cases eq : w' = w
  · subst eq
    rwa [State.setWorker_worker_same]
  · rw [State.setWorker_worker_other _ _ _ eq, same]
    exact fun busy => eq (t.unique (holds busy) held)

namespace Abstracts

variable {s : ServiceRef → Actor BaseMsg}

theorem initial : Abstracts (State.initial n) fun _ => ⟨[], .idle⟩ :=
  fun _ => ⟨rfl, .idle rfl fun _ _ => nofun⟩

/-- A step that the actors do not see. -/
theorem stay (abs : Abstracts σ s) (silent : e.shows = none)
    (queue : ∀ r, (σ'.srv r).mq.msgQueue = (σ.srv r).mq.msgQueue)
    (exited : ∀ r, (σ'.srv r).exited = (σ.srv r).exited)
    (serves : ∀ w, (σ'.worker w).serves = (σ.worker w).serves)
    (exiting : ∀ w, (σ'.worker w).exiting = (σ.worker w).exiting) : Follows s e σ' := by
  refine ⟨s, [], .init rfl, by rw [silent]; rfl, fun r => ⟨?_, ?_⟩⟩
  · rw [queue, (abs r).1]
  · exact (abs r).2.keep (exited r) (fun w msg => by rw [serves]) fun w => by rw [exiting]

/-- A step that replaces a service and keeps its queue, in any thread but a worker. -/
theorem stay_srv (abs : Abstracts σ s) (silent : e.shows = none) {f : Service} (r : ServiceRef)
    (srv : σ'.srv = Function.update σ.srv r f) (queue : f.mq.msgQueue = (σ.srv r).mq.msgQueue)
    (exited : f.exited = (σ.srv r).exited) (worker : σ'.worker = σ.worker) : Follows s e σ' := by
  refine abs.stay silent (fun r' => ?_) (fun r' => ?_) (fun w => by rw [worker])
    fun w => by rw [worker]
  · rw [srv]
    exact State.modService_keeps σ r (g := fun s => s.mq.msgQueue) (f := fun _ => f) queue r'
  · rw [srv]
    exact State.modService_keeps σ r (g := fun s => s.exited) (f := fun _ => f) exited r'

/-- A step of a worker that the actors do not see, after a change of the services that they do not
see. -/
theorem stay_worker {τ : State n} (abs : Abstracts σ s) (silent : e.shows = none)
    (queue : ∀ r, (τ.srv r).mq.msgQueue = (σ.srv r).mq.msgQueue)
    (exited : ∀ r, (τ.srv r).exited = (σ.srv r).exited) (worker : τ.worker = σ.worker)
    {w : Fin n} {pc : WorkerPc} (serves : pc.serves = (σ.worker w).serves)
    (exiting : pc.exiting = (σ.worker w).exiting) : Follows s e (τ.setWorker w pc) := by
  rw [← worker] at serves exiting
  refine abs.stay silent queue exited (fun w' => ?_) fun w' => ?_
  · rw [State.setWorker_keeps τ w serves w', worker]
  · rw [State.setWorker_keeps τ w exiting w', worker]

/-- A step of service `r`. -/
theorem move (abs : Abstracts σ s) {r : ServiceRef} {p : Phase BaseMsg}
    (moves : Moves r (s r) e.shows ⟨(σ'.srv r).mq.msgQueue, p⟩) (acts : Acts σ' r p)
    (others : ∀ r', r' ≠ r → (σ'.srv r') = (σ.srv r'))
    (serves : ∀ w r' msg, r' ≠ r → ((σ'.worker w).serves = some (r', msg) ↔
      (σ.worker w).serves = some (r', msg)))
    (exiting : ∀ w r', r' ≠ r → ((σ'.worker w).exiting = some r' ↔
      (σ.worker w).exiting = some r')) : Follows s e σ' := by
  refine ⟨_, [e.shows], System.after_one ⟨r, _, moves, rfl⟩, ?_, fun r' => ?_⟩
  · cases e.shows <;> rfl
  · by_cases same : r' = r
    · subst same
      rw [Function.update_self]
      exact ⟨rfl, acts⟩
    · rw [Function.update_of_ne same]
      have kept := others r' same
      exact ⟨by rw [kept, (abs r').1], (abs r').2.keep (by rw [kept])
        (fun w msg => serves w r' msg same) fun w => exiting w r' same⟩

/-- A step of service `r` by worker `w`, which holds it before and after the step. -/
theorem move_worker {τ : State n} (abs : Abstracts σ s) {r : ServiceRef} {p : Phase BaseMsg}
    {w : Fin n} {pc : WorkerPc}
    (moves : Moves r (s r) e.shows ⟨(τ.srv r).mq.msgQueue, p⟩)
    (acts : Acts (τ.setWorker w pc) r p) (others : ∀ r', r' ≠ r → (τ.srv r') = (σ.srv r'))
    (worker : τ.worker = σ.worker) (held : (σ.worker w).held = some r)
    (held' : ∀ r', pc.held = some r' → r' = r) : Follows s e (τ.setWorker w pc) := by
  have alone : ∀ r', r' ≠ r → (∀ msg, (σ.worker w).serves ≠ some (r', msg) ∧
      pc.serves ≠ some (r', msg)) ∧ (σ.worker w).exiting ≠ some r' ∧ pc.exiting ≠ some r' := by
    intro r' ne
    have before : (σ.worker w).held ≠ some r' := fun h => ne (Option.some.inj (h.symm.trans held))
    exact ⟨fun msg => ⟨fun h => before (WorkerPc.held_of_serves h),
      fun h => ne (held' r' (WorkerPc.held_of_serves h))⟩,
      fun h => before (WorkerPc.held_of_leaving h), fun h => ne (held' r' (WorkerPc.held_of_leaving h))⟩
  refine abs.move moves acts others (fun w' r' msg ne => ?_) fun w' r' ne => ?_
  · rw [← worker]
    refine State.setWorker_iff τ w (p := fun pc => pc.serves = some (r', msg)) ?_ w'
    rw [worker]
    exact iff_of_false ((alone r' ne).1 msg).2 ((alone r' ne).1 msg).1
  · rw [← worker]
    refine State.setWorker_iff τ w (p := fun pc => pc.exiting = some r') ?_ w'
    rw [worker]
    exact iff_of_false (alone r' ne).2.2 (alone r' ne).2.1

theorem serviceStep (abs : Abstracts σ s) (born : Born σ) (step : ServiceStep σ e σ') :
    Follows s e σ' := by
  cases step with
  | newService =>
    refine abs.stay_srv rfl σ.nextRef rfl ?_ ?_ rfl <;> rw [born.srv σ.nextRef le_rfl]
  | @onInit r | @onInitReturn r => exact abs.stay_srv rfl r rfl rfl rfl rfl
  | nameService => exact abs.stay rfl (fun _ => rfl) (fun _ => rfl) (fun _ => rfl) fun _ => rfl

theorem callStep (abs : Abstracts σ s) (step : CallStep σ e σ') : Follows s e σ' := by
  cases step with
  | send | sendFound | sendMissed | kill | killFound | killMissed | killErase | killName
  | killRead => exact abs.stay rfl (fun _ => rfl) (fun _ => rfl) (fun _ => rfl) fun _ => rfl
  | @sendEnter k r | @killEnter k r => exact abs.stay_srv rfl r rfl (by simp) rfl rfl
  | @killMark k r => exact abs.stay_srv rfl r rfl rfl rfl rfl
  | @sendPush k r msg =>
    refine abs.move (r := r) (p := (s r).phase) ?_ ?_ ?_ (fun _ _ _ _ => Iff.rfl)
      fun _ _ _ => Iff.rfl
    · have queue : ((((σ.modQueue r fun mq => mq.push msg).setCall k (.sendEnter r)).srv r).mq).msgQueue
          = (s r).mailbox ++ [msg] := by simp [State.modQueue, (abs r).1]
      rw [queue]
      exact .push (s r) msg
    · refine (abs r).2.keep ?_ (fun _ _ => Iff.rfl) fun _ => Iff.rfl
      simp [State.modQueue]
    · exact fun r' ne => Function.update_of_ne ne ..

theorem wakeStep (abs : Abstracts σ s) (step : WakeStep σ e σ') : Follows s e σ' := by
  cases step with
  | wakeTest | wakeCount | wakeLength | wakeNone =>
    exact abs.stay rfl (fun _ => rfl) (fun _ => rfl) (fun _ => rfl) fun _ => rfl
  | @wakeSignal k w _ waits =>
    have free : WorkerPc.woken.serves = (σ.worker w).serves ∧
        WorkerPc.woken.exiting = (σ.worker w).exiting := by
      rw [waits]
      exact ⟨rfl, rfl⟩
    exact abs.stay rfl (fun _ => rfl) (fun _ => rfl) (State.setWorker_keeps σ w free.1)
      (State.setWorker_keeps σ w free.2)

theorem sleepStep (abs : Abstracts σ s) (step : SleepStep σ e σ') : Follows s e σ' := by
  cases step with
  | take h | takeNone h | lockSleep h | condWait h | spurious h | resume h =>
    refine abs.stay_worker ?_ (fun _ => ?_) (fun _ => ?_) ?_ ?_ ?_ <;> first | rfl | (rw [h]; rfl)
  | readExit h =>
    exact abs.stay_worker rfl (fun _ => rfl) (fun _ => rfl) rfl (by rw [h]; split <;> rfl)
      (by rw [h]; split <;> rfl)

theorem mainStep (abs : Abstracts σ s) (step : MainStep σ e σ') : Follows s e σ' := by
  cases step with
  | killAll | killNext | killReturn | setExit =>
    exact abs.stay rfl (fun _ => rfl) (fun _ => rfl) (fun _ => rfl) fun _ => rfl
  | wakeAll =>
    refine abs.stay rfl (fun _ => rfl) (fun _ => rfl) (fun w => ?_) fun w => ?_ <;>
    · simp only [State.broadcast]
      split
      · rename_i waits
        rw [waits]
        rfl
      · rfl

/-- A step of a worker that the actors do not see, after a change of a queue that keeps its
messages. -/
theorem stay_queue (abs : Abstracts σ s) (silent : e.shows = none) {r : ServiceRef}
    {f : StarnetMQ → StarnetMQ} (queue : (f (σ.srv r).mq).msgQueue = (σ.srv r).mq.msgQueue)
    {w : Fin n} {pc : WorkerPc} (serves : pc.serves = (σ.worker w).serves)
    (exiting : pc.exiting = (σ.worker w).exiting) :
    Follows s e ((σ.modQueue r f).setWorker w pc) :=
  abs.stay_worker silent (State.modService_keeps σ r (g := fun s => s.mq.msgQueue) queue)
    (State.modService_keeps σ r (g := fun s => s.exited) rfl) rfl serves exiting

theorem actor_eq (abs : Abstracts σ s) {phase : Phase BaseMsg} (h : (s r).phase = phase) :
    s r = ⟨(σ.srv r).mq.msgQueue, phase⟩ := by
  rw [← h, ← (abs r).1]

/-- The front message of a queue that `Clear` drops. -/
theorem drops (abs : Abstracts σ s) (t : Token σ r) {w : Fin n} {msg : BaseMsg}
    {rest : List BaseMsg} (h : σ.worker w = .clear r)
    (queue : (σ.srv r).mq.msgQueue = msg :: rest) :
    Moves r (s r) (some (.drop r msg)) ⟨(σ.srv r).mq.dropFront.msgQueue, .leaving⟩ := by
  rw [abs.actor_eq ((abs r).2.leaving_of_exiting t (w := w) (by rw [h]; rfl)), queue,
    StarnetMQ.dropFront_msgQueue, queue]
  exact .drop msg rest

theorem turnStep (abs : Abstracts σ s) (token : ∀ r, Token σ r) (step : TurnStep σ e σ') :
    Follows s e σ' := by
  cases step with
  | readLength h | processDone h | testLive h | testExited h | clearResume h =>
    exact abs.stay_worker rfl (fun _ => rfl) (fun _ => rfl) rfl (by rw [h]; rfl) (by rw [h]; rfl)
  | processNone h _ popped =>
    obtain ⟨before, after⟩ := StarnetMQ.pop_none popped
    exact abs.stay_queue rfl (after.trans before.symm) (by rw [h]; rfl) (by rw [h]; rfl)
  | readOverload h | onExitReturn h =>
    exact abs.stay_queue rfl rfl (by rw [h]; rfl) (by rw [h]; rfl)
  | @finish w r h =>
    let f := fun s : Service =>
      { s with mq := ((σ.srv r).mq.finishDispatch r σ.globalQueue).1 }
    refine abs.stay_worker ?_ ?_ ?_ ?_ ?_ ?_
    · rfl
    · exact State.modService_keeps σ r (g := fun s => s.mq.msgQueue) (f := f)
        (StarnetMQ.finishDispatch_msgQueue ..)
    · exact State.modService_keeps σ r (g := fun s => s.exited) (f := f) rfl
    · rfl
    all_goals
      rw [h]
      rfl
  | @processPop w r i msg h _ popped =>
    have idle := (abs r).2.idle_of_held (token r) (w := w) (by rw [h]; rfl) (by rw [h]; rfl)
      (by rw [h]; rfl)
    refine abs.move_worker (r := r) (p := .serving msg) ?_ ?_ ?_ rfl (by rw [h]; rfl) ?_
    · rw [abs.actor_eq idle, StarnetMQ.pop_some popped, State.modQueue, State.modService_srv_same]
      exact .serve msg _
    · refine .serving (w := w) ?_
      rw [State.setWorker_worker_same]
      rfl
    · exact fun r' ne => Function.update_of_ne ne ..
    · rintro r' ⟨⟩
      rfl
  | @onMsgReturn w r i msg h =>
    have serves : (σ.worker w).serves = some (r, msg) := by
      rw [h]
      rfl
    have held := WorkerPc.held_of_serves serves
    refine abs.move_worker (r := r) (p := .idle) ?_ ?_ (fun _ _ => rfl) rfl held ?_
    · rw [abs.actor_eq ((abs r).2.serving_of_serves (token r) serves)]
      exact .done msg _
    · refine .idle ((token r).not_exited held (WorkerPc.exiting_of_serves serves)) fun w' msg' => ?_
      exact (token r).none_after held rfl WorkerPc.held_of_serves (by simp [WorkerPc.serves]) w'
    · rintro r' ⟨⟩
      rfl
  | @testExiting w r h =>
    have idle := (abs r).2.idle_of_held (token r) (w := w) (by rw [h]; rfl) (by rw [h]; rfl)
      (by rw [h]; rfl)
    refine abs.move_worker (r := r) (p := .leaving) ?_ ?_ ?_ rfl (by rw [h]; rfl) ?_
    · rw [abs.actor_eq idle, State.modService_srv_same]
      exact .exit _
    · refine .leaving (w := w) ?_
      rw [State.setWorker_worker_same]
      rfl
    · exact fun r' ne => Function.update_of_ne ne ..
    · rintro r' ⟨⟩
      rfl
  | @clearDrop w r msg rest h queue =>
    refine abs.move (r := r) (p := .leaving) ?_ ?_ ?_ (fun _ _ _ _ => Iff.rfl)
      fun _ _ _ => Iff.rfl
    · rw [State.modQueue, State.modService_srv_same]
      exact abs.drops (token r) h queue
    · exact .leaving (w := w) (by rw [State.modQueue, State.modService_worker, h]; rfl)
    · exact fun r' ne => Function.update_of_ne ne ..
  | @clearSend w r msg rest toId err k h queue =>
    refine abs.move_worker (r := r) (p := .leaving) ?_ ?_ ?_ rfl (by rw [h]; rfl) ?_
    · rw [State.setCall_srv, State.modQueue, State.modService_srv_same]
      exact abs.drops (token r) h queue
    · refine .leaving (w := w) ?_
      rw [State.setWorker_worker_same]
      rfl
    · exact fun r' ne => Function.update_of_ne ne ..
    · rintro r' ⟨⟩
      rfl
  | @clearDone w r h queue =>
    have exiting : (σ.worker w).exiting = some r := by
      rw [h]
      rfl
    have held := WorkerPc.held_of_leaving exiting
    refine abs.move_worker (r := r) (p := .gone) ?_ ?_ ?_ rfl held ?_
    · rw [abs.actor_eq ((abs r).2.leaving_of_exiting (token r) exiting), State.modQueue,
        State.modService_srv_same, StarnetMQ.unlockQueue_msgQueue, queue]
      exact .clear
    · refine .gone ?_ fun w' => ?_
      · have exited := ((token r).phase w held).mp exiting
        simpa [State.modQueue] using exited
      · exact (token r).none_after held rfl WorkerPc.held_of_leaving (by simp [WorkerPc.exiting]) w'
    · exact fun r' ne => Function.update_of_ne ne ..
    · rintro r' ⟨⟩

end Abstracts

/-- A node with any number of workers refines the system of actors. -/
theorem node_refines (n : Nat) :
    (node n).Refines (actors ServiceRef BaseMsg) Event.shows Abstracts where
  init _ h := h ▸ ⟨_, rfl, Abstracts.initial⟩
  step σ tr e σ' s run abs step := by
    have token := Token.run run
    cases step with
    | service h => exact abs.serviceStep (Born.run run) h
    | call h => exact abs.callStep h
    | wake h => exact abs.wakeStep h
    | sleep h => exact abs.sleepStep h
    | turn h => exact abs.turnStep token h
    | main h => exact abs.mainStep h

/-- In every run of a node, with any number of workers and calls from any threads, the services do
what actors do that have their own mailboxes and no workers at all. -/
theorem run_is_run_of_actors {tr : List (Event n)} (run : (node n).Run σ tr) :
    ∃ s labels, (actors ServiceRef BaseMsg).Run s labels ∧
      labels.reduceOption = tr.filterMap Event.shows ∧ Abstracts σ s :=
  (node_refines n).run run

/-- A worker takes a request, as an actor serves it. -/
theorem run_is_run_of_actors_request : ∃ (s : ServiceRef → Actor BaseMsg)
    (labels : List (Option (Label ServiceRef BaseMsg))),
    (actors ServiceRef BaseMsg).Run s labels ∧
      labels.reduceOption = [.push 0 (request 1), .serve 0 (request 1)] := by
  have h0 : (node 1).Run _ _ := .init rfl
  have h1 := h0.step (.service (.newService _))
  have h2 := h1.step (.call (.send (k := 0) 1 (request 1) rfl))
  have h3 := h2.step (.call (.sendFound (k := 0) (r := 0) rfl rfl))
  have h4 := h3.step (.call (.sendPush (k := 0) rfl rfl))
  have h5 := h4.step (.call (.sendEnter (k := 0) rfl))
  have h6 := h5.step (.sleep (.take (w := 0) (r := 0) rfl rfl))
  have h7 := h6.step (.turn (.readLength (w := 0) rfl rfl))
  have h8 := h7.step (.turn (.processPop (w := 0) (i := 0) rfl rfl rfl))
  obtain ⟨s, labels, run, shown, -⟩ := run_is_run_of_actors h8
  exact ⟨s, labels, run, shown⟩

/-- What a service does in a run: it serves the messages pushed to it in the order of the pushes,
then leaves at most once, and from then on drops the next ones in this order and serves none; the
messages that it has neither served nor dropped are in its queue. -/
theorem service_life {tr : List (Event n)} (run : (node n).Run σ tr) (r : ServiceRef) :
    ∃ served dropped phase, Acts σ r phase ∧ Life r ⟨(σ.srv r).mq.msgQueue, phase⟩
      (tr.filterMap Event.shows) served dropped := by
  obtain ⟨s, abs, served, dropped, life⟩ := (node_refines n).transfer
    (P := fun s labels => ∃ served dropped, Life r (s r) labels served dropped)
    (fun _ _ run => lives run r) run
  exact ⟨served, dropped, _, (abs r).2, abs.actor_eq rfl ▸ life⟩

/-- A service is killed before a worker has taken the request that was pushed to it. -/
theorem service_life_killed : ∃ (σ : State 1) (tr : List (Event 1)) (served dropped : List BaseMsg)
    (phase : Phase BaseMsg), (node 1).Run σ tr ∧
      doings 0 (tr.filterMap Event.shows) = [.exit 0, .drop 0 (request 1)] ∧
      Life 0 ⟨(σ.srv 0).mq.msgQueue, phase⟩ (tr.filterMap Event.shows) served dropped := by
  have h0 : (node 1).Run _ _ := .init rfl
  have h1 := h0.step (.service (.newService _))
  have h2 := h1.step (.call (.send (k := 0) 1 (request 1) rfl))
  have h3 := h2.step (.call (.sendFound (k := 0) (r := 0) rfl rfl))
  have h4 := h3.step (.call (.kill (k := 1) 1 rfl))
  have h5 := h4.step (.call (.killFound (k := 1) (r := 0) rfl rfl))
  have h6 := h5.step (.call (.killErase (k := 1) rfl))
  have h7 := h6.step (.call (.killName (k := 1) rfl))
  have h8 := h7.step (.call (.killMark (k := 1) rfl))
  have h9 := h8.step (.call (.killRead (k := 1) rfl))
  have h10 := h9.step (.call (.killEnter (k := 1) rfl))
  have h11 := h10.step (.sleep (.take (w := 0) (r := 0) rfl rfl))
  have h12 := h11.step (.turn (.readLength (w := 0) rfl rfl))
  have h13 := h12.step (.turn (.processNone (w := 0) (i := 0) rfl rfl rfl))
  have h14 := h13.step (.call (.sendPush (k := 0) rfl rfl))
  have h15 := h14.step (.turn (.testExiting (w := 0) rfl rfl rfl))
  have h16 := h15.step (.turn (.onExitReturn (w := 0) rfl rfl))
  have h17 := h16.step (.turn (.clearDrop (w := 0) rfl rfl rfl))
  obtain ⟨served, dropped, phase, -, life⟩ := service_life h17 0
  exact ⟨_, _, served, dropped, phase, h17, rfl, life⟩

end Starnet.Core
