import Mathlib.Data.List.Count
import Starnet.Core.Delivery

/-! What becomes of the messages of a service that exits. A sender keeps the pointer that it found
in the services map, so its `Push` may come after the `Clear` of the exit path; such a message
stays in a queue that nobody reads. When no push comes so late, every message whose sender found the
service is processed or handed to `dropMessage`. -/

namespace Starnet.Core

open Transition

variable {n : Nat} {σ σ' : State n} {tr : List (Event n)} {e : Event n} {r : ServiceRef}

namespace Event

/-- The call and the message of a `Send` that found `r`. -/
def foundBy (r : ServiceRef) : Event n → Option (Nat × BaseMsg)
  | found k r' msg => if r' = r then some (k, msg) else none
  | _ => none

/-- The call and the message of a `Send` that pushed to `r`. -/
def pushedBy (r : ServiceRef) : Event n → Option (Nat × BaseMsg)
  | push k r' msg => if r' = r then some (k, msg) else none
  | _ => none

end Event

/-- The messages of the calls of `Send` that found `r` in the services map. -/
def found (r : ServiceRef) (tr : List (Event n)) : List BaseMsg :=
  (tr.filterMap (Event.foundBy r)).map Prod.snd

/-- Service `r` has run its exit path to the end. -/
def Retired (σ : State n) (r : ServiceRef) : Prop :=
  (σ.srv r).exited = true ∧ ∀ w, (σ.worker w).exiting ≠ some r

/-- A message is pushed to a service before the end of its exit path. -/
def PushesInTime (σ : State n) (e : Event n) : Prop :=
  ∀ k r msg, e = .push k r msg → ¬ Retired σ r

/-- Every message whose sender found `r` was processed or dropped, and none is left. -/
def Conserved (σ : State n) (tr : List (Event n)) (r : ServiceRef) : Prop :=
  (∀ k, σ.call k = .idle) → Retired σ r →
    (found r tr).Perm (processed r tr ++ dropped r tr) ∧ (σ.srv r).mq.msgQueue = []

/-! ### Senders in flight -/

theorem pushed_eq_map (r : ServiceRef) (tr : List (Event n)) :
    pushed r tr = (tr.filterMap (Event.pushedBy r)).map Prod.snd := by
  rw [pushed, List.map_filterMap]
  congr 1
  funext e
  cases e with
  | push k r' msg => simp only [Event.pushed, Event.pushedBy]; split <;> rfl
  | _ => rfl

/-- A call that found `r` either pushed its message or is about to. -/
def InFlight (σ : State n) (tr : List (Event n)) (r : ServiceRef) : Prop :=
  ∀ k msg, (tr.filterMap (Event.foundBy r)).count (k, msg) =
    (tr.filterMap (Event.pushedBy r)).count (k, msg) + if σ.call k = .sendPush r msg then 1 else 0

namespace InFlight

theorem keep (f : InFlight σ tr r) (found : e.foundBy r = none) (pushed : e.pushedBy r = none)
    (call : ∀ k msg, σ'.call k = .sendPush r msg ↔ σ.call k = .sendPush r msg) :
    InFlight σ' (tr ++ [e]) r := by
  intro k msg
  simp only [List.filterMap_append, List.filterMap_cons, found, pushed, List.filterMap_nil,
    List.append_nil, call]
  exact f k msg

theorem keep_call (f : InFlight σ tr r) (found : e.foundBy r = none) (pushed : e.pushedBy r = none)
    (call : σ'.call = σ.call) : InFlight σ' (tr ++ [e]) r :=
  f.keep found pushed fun k msg => by rw [call]

/-- A step of call `k` outside `Push`. -/
theorem keep_setCall (f : InFlight σ tr r) {k : Nat} {pc : CallPc} (found : e.foundBy r = none)
    (pushed : e.pushedBy r = none) (call : σ'.call = Function.update σ.call k pc)
    (before : ∀ msg, σ.call k ≠ .sendPush r msg) (after : ∀ msg, pc ≠ .sendPush r msg) :
    InFlight σ' (tr ++ [e]) r := by
  refine f.keep found pushed fun k' msg => ?_
  rw [call]
  by_cases same : k' = k
  · subst same
    simp [before, after]
  · rw [Function.update_of_ne same]

theorem found (f : InFlight σ tr r) {k : Nat} {toId : UInt32} {r' : ServiceRef} {msg : BaseMsg}
    (h : σ.call k = .sendGet toId msg) :
    InFlight (σ.setCall k (.sendPush r' msg)) (tr ++ [.found k r' msg]) r := by
  by_cases same : r' = r
  · subst same
    intro k' msg'
    have before := f k' msg'
    simp only [List.filterMap_append, List.filterMap_cons, Event.foundBy, Event.pushedBy, if_true,
      List.filterMap_nil, List.append_nil, List.count_append, List.count_singleton]
    by_cases call : k' = k
    · subst call
      rw [h] at before
      simp only [State.setCall_call_same]
      by_cases eq : msg = msg' <;> simp_all
    · rw [State.setCall_call_other _ _ _ call]
      simp [Ne.symm call, before]
  · exact f.keep_setCall (by simp [Event.foundBy, same]) rfl rfl (by simp [h]) (by simp [same])

theorem push (f : InFlight σ tr r) {k : Nat} {r' : ServiceRef} {msg : BaseMsg}
    (h : σ.call k = .sendPush r' msg) (call : σ'.call = Function.update σ.call k (.sendEnter r')) :
    InFlight σ' (tr ++ [.push k r' msg]) r := by
  by_cases same : r' = r
  · subst same
    intro k' msg'
    have before := f k' msg'
    simp only [List.filterMap_append, List.filterMap_cons, Event.foundBy, Event.pushedBy, if_true,
      List.filterMap_nil, List.append_nil, List.count_append, List.count_singleton, call]
    by_cases eq : k' = k
    · subst eq
      rw [h] at before
      simp only [Function.update_self]
      by_cases eq : msg = msg' <;> simp_all
    · rw [Function.update_of_ne eq]
      simp [Ne.symm eq, before]
  · exact f.keep_setCall rfl (by simp [Event.pushedBy, same]) call (by simp [h, same]) (by simp)

theorem callStep (f : InFlight σ tr r) (step : CallStep σ e σ') : InFlight σ' (tr ++ [e]) r := by
  cases step with
  | send _ _ h | sendMissed h | kill _ h | killFound h | killMissed h | killErase h | killName h
  | killMark h => exact f.keep_setCall rfl rfl rfl (by simp [h]) (by simp)
  | sendFound h => exact f.found h
  | sendPush h => exact f.push h rfl
  | sendEnter h | killEnter h =>
    refine f.keep_setCall rfl rfl rfl (by simp [h]) ?_
    unfold State.afterEnter
    split <;> simp
  | killRead h =>
    refine f.keep_setCall rfl rfl rfl (by simp [h]) ?_
    split <;> simp

theorem step (f : InFlight σ tr r) (step : Step σ e σ') : InFlight σ' (tr ++ [e]) r := by
  cases step with
  | service h => cases h <;> exact f.keep_call rfl rfl rfl
  | call h => exact f.callStep h
  | wake h =>
    cases h with
    | wakeTest h | wakeLength h =>
      refine f.keep_setCall rfl rfl rfl (by simp [h]) ?_
      split <;> simp
    | wakeCount h | wakeSignal h | wakeNone h =>
      exact f.keep_setCall rfl rfl rfl (by simp [h]) (by simp)
  | sleep h => cases h <;> exact f.keep_call rfl rfl rfl
  | turn h =>
    cases h with
    | clearSend _ _ _ idle => exact f.keep_setCall rfl rfl rfl (by simp [idle]) (by simp)
    | _ => exact f.keep_call rfl rfl rfl
  | main h =>
    cases h with
    | killNext _ idle => exact f.keep_setCall rfl rfl rfl (by simp [idle]) (by simp)
    | _ => exact f.keep_call rfl rfl rfl

theorem run (run : (node n).Run σ tr) (r : ServiceRef) : InFlight σ tr r :=
  run.invariant (P := fun σ tr => InFlight σ tr r)
    (fun _ h => h ▸ fun _ _ => by simp [State.initial]) fun _ _ _ _ _ f step => f.step step

/-- With no call in progress the messages whose sender found `r` are those pushed to `r`. -/
theorem found_perm (f : InFlight σ tr r) (idle : ∀ k, σ.call k = .idle) :
    (Core.found r tr).Perm (pushed r tr) := by
  rw [Core.found, pushed_eq_map]
  refine List.Perm.map _ (List.perm_iff_count.mpr fun ⟨k, msg⟩ => ?_)
  have count := f k msg
  rwa [idle k, if_neg (by simp), Nat.add_zero] at count

end InFlight

/-! ### The queue of a retired service -/

/-- The queue of a service at the end of its exit path is empty. -/
def Drained (σ : State n) (r : ServiceRef) : Prop := Retired σ r → (σ.srv r).mq.msgQueue = []

namespace Drained

/-- A step that adds no message to `r` and does not end its exit path. -/
theorem keep (d : Drained σ r)
    (queue : (σ.srv r).mq.msgQueue = [] → (σ'.srv r).mq.msgQueue = [])
    (exited : (σ'.srv r).exited = (σ.srv r).exited)
    (exiting : ∀ w, (σ.worker w).exiting = some r → (σ'.worker w).exiting = some r) :
    Drained σ' r := fun retired =>
  queue (d ⟨exited ▸ retired.1, fun w hw => retired.2 w (exiting w hw)⟩)

theorem keep_srv (d : Drained σ r) (srv : σ'.srv = σ.srv)
    (exiting : ∀ w, (σ.worker w).exiting = some r → (σ'.worker w).exiting = some r) :
    Drained σ' r :=
  d.keep (by rw [srv]; exact id) (by rw [srv]) exiting

/-- A step that replaces service `r'`, adds no message to it and does not mark its exit. -/
theorem keep_at (d : Drained σ r) {r' : ServiceRef} {s : Service}
    (srv : σ'.srv = Function.update σ.srv r' s)
    (queue : (σ.srv r').mq.msgQueue = [] → s.mq.msgQueue = [])
    (exited : s.exited = (σ.srv r').exited)
    (exiting : ∀ w, (σ.worker w).exiting = some r → (σ'.worker w).exiting = some r) :
    Drained σ' r := by
  by_cases same : r = r'
  · subst same
    refine d.keep ?_ ?_ exiting <;> rw [srv, Function.update_self] <;> assumption
  · refine d.keep ?_ ?_ exiting <;> rw [srv, Function.update_of_ne same]
    exact id

/-- Worker `w` moves without ending an exit path. -/
theorem stays {w : Fin n} {pc : WorkerPc}
    (h : (σ.worker w).exiting = none ∨ pc.exiting = (σ.worker w).exiting) (w' : Fin n)
    (hw' : (σ.worker w').exiting = some r) :
    (Function.update σ.worker w pc w').exiting = some r := by
  by_cases same : w' = w
  · subst same
    rw [Function.update_self]
    rcases h with none | keeps
    · rw [none] at hw'
      contradiction
    · rwa [keeps]
  · rwa [Function.update_of_ne same]

theorem push (d : Drained σ r) {k : Nat} {r' : ServiceRef} {msg : BaseMsg} {pc : CallPc}
    (inTime : ¬ Retired σ r') :
    Drained ((σ.modQueue r' fun mq => mq.push msg).setCall k pc) r := by
  intro retired
  by_cases same : r = r'
  · subst same
    exact absurd ⟨by simpa [State.modQueue] using retired.1, retired.2⟩ inTime
  · have other : ((σ.modQueue r' fun mq => mq.push msg).setCall k pc).srv r = σ.srv r :=
      Function.update_of_ne same ..
    rw [other]
    exact d ⟨other ▸ retired.1, retired.2⟩

/-- The exit path starts, so it is not at its end. -/
theorem exit (d : Drained σ r) {w : Fin n} {r' : ServiceRef}
    (h : (σ.worker w).exiting = none) :
    Drained ((σ.modService r' fun s => { s with exited := true }).setWorker w (.onExit r')) r := by
  by_cases same : r = r'
  · subst same
    exact fun retired => absurd (by simp [WorkerPc.exiting]) (retired.2 w)
  · refine d.keep ?_ ?_ (stays (.inl h))
    · simp [State.modService_srv_other _ _ _ same]
    · simp [State.modService_srv_other _ _ _ same]

/-- The exit path ends with an empty queue. -/
theorem cleared (d : Drained σ r) {w : Fin n} {r' : ServiceRef} (h : σ.worker w = .clear r')
    (queue : (σ.srv r').mq.msgQueue = []) :
    Drained ((σ.modQueue r' fun mq => mq.unlockQueue).setWorker w .popGlobal) r := by
  by_cases same : r = r'
  · subst same
    exact fun _ => by simpa [State.modQueue] using queue
  · refine d.keep ?_ ?_ fun w' hw' => ?_
    · simp [State.modQueue, State.modService_srv_other _ _ _ same]
    · simp [State.modQueue, State.modService_srv_other _ _ _ same]
    · have ne : w' ≠ w := by
        rintro rfl
        simp only [h, WorkerPc.exiting, Option.some.injEq] at hw'
        exact same hw'.symm
      rwa [State.setWorker_worker_other _ _ _ ne]

theorem serviceStep (d : Drained σ r) (born : Born σ) (step : ServiceStep σ e σ') :
    Drained σ' r := by
  cases step with
  | newService => exact d.keep_at rfl (fun _ => rfl) (by rw [born.srv σ.nextRef le_rfl]) fun _ => id
  | onInit | onInitReturn => exact d.keep_at rfl id rfl fun _ => id
  | nameService => exact d

theorem callStep (d : Drained σ r) (step : CallStep σ e σ') (inTime : PushesInTime σ e) :
    Drained σ' r := by
  cases step with
  | send | sendFound | sendMissed | kill | killFound | killMissed | killErase | killName
  | killRead => exact d
  | sendPush => exact d.push (inTime _ _ _ rfl)
  | sendEnter | killEnter => exact d.keep_at rfl (by simp) rfl fun _ => id
  | killMark => exact d.keep_at rfl id rfl fun _ => id

theorem sleepStep (d : Drained σ r) (step : SleepStep σ e σ') : Drained σ' r := by
  cases step with
  | take h | takeNone h | readExit h | lockSleep h | condWait h | spurious h | resume h =>
    exact d.keep_srv rfl (stays (.inl (by rw [h]; rfl)))

theorem turnStep (d : Drained σ r) (step : TurnStep σ e σ') : Drained σ' r := by
  cases step with
  | readLength h | processDone h | onMsgReturn h | testLive h | testExited h =>
    exact d.keep_srv rfl (stays (.inl (by rw [h]; rfl)))
  | processPop h _ popped =>
    refine d.keep_at rfl (fun empty => ?_) rfl (stays (.inl (by rw [h]; rfl)))
    rw [StarnetMQ.pop_some popped] at empty
    contradiction
  | processNone h _ popped =>
    exact d.keep_at rfl (fun _ => (StarnetMQ.pop_none popped).2) rfl
      (stays (.inl (by rw [h]; rfl)))
  | readOverload h => exact d.keep_at rfl id rfl (stays (.inl (by rw [h]; rfl)))
  | testExiting h => exact d.exit (by rw [h]; rfl)
  | finish h => exact d.keep_at rfl (by simp) rfl (stays (.inl (by rw [h]; rfl)))
  | onExitReturn h => exact d.keep_at rfl id rfl (stays (.inr (by rw [h]; rfl)))
  | clearDrop => exact d.keep_at rfl (fun empty => by simp [empty]) rfl fun _ => id
  | clearSend h =>
    exact d.keep_at rfl (fun empty => by simp [empty]) rfl (stays (.inr (by rw [h]; rfl)))
  | clearResume h => exact d.keep_srv rfl (stays (.inr (by rw [h]; rfl)))
  | clearDone h queue => exact d.cleared h queue

theorem step (d : Drained σ r) (born : Born σ) (step : Step σ e σ') (inTime : PushesInTime σ e) :
    Drained σ' r := by
  cases step with
  | service h => exact d.serviceStep born h
  | call h => exact d.callStep h inTime
  | wake h =>
    cases h with
    | wakeSignal _ waits => exact d.keep_srv rfl (stays (.inl (by rw [waits]; rfl)))
    | _ => exact d
  | sleep h => exact d.sleepStep h
  | turn h => exact d.turnStep h
  | main h =>
    cases h with
    | killAll | killNext | killReturn | setExit => exact d
    | wakeAll =>
      refine d.keep_srv rfl fun w hw => ?_
      have awake : σ.worker w ≠ .blocked := fun blocked => by simp [blocked, WorkerPc.exiting] at hw
      simpa [State.broadcast, awake] using hw

theorem run (run : ((node n).restrict PushesInTime).Run σ tr) (r : ServiceRef) : Drained σ r :=
  run.invariant (P := fun σ _ => Drained σ r)
    (fun _ h => h ▸ fun retired => absurd retired.1 Bool.false_ne_true)
    fun _ _ _ _ run d step => d.step (Born.run run.of_restrict) step.1 step.2

end Drained

/-- In every run in which each message is pushed before the end of the exit path of its service, no
message whose sender found the service is lost. -/
theorem conserved_of_pushesInTime (run : ((node n).restrict PushesInTime).Run σ tr)
    (r : ServiceRef) : Conserved σ tr r := by
  intro idle retired
  have empty := Drained.run run r retired
  have balance := (Ledger.run run.of_restrict r).balance
  rw [empty, List.append_nil] at balance
  rw [balance]
  exact ⟨(InFlight.run run.of_restrict r).found_perm idle, empty⟩

/-- A request that is pushed to a killed service before its exit path is dropped there. -/
theorem conserved_dropped : ∃ (σ : State 1) (tr : List (Event 1)),
    ((node 1).restrict PushesInTime).Run σ tr ∧ Retired σ 0 ∧ dropped 0 tr = [request 1] ∧
      (found 0 tr).Perm (processed 0 tr ++ dropped 0 tr) ∧ (σ.srv 0).mq.msgQueue = [] := by
  have quiet : ∀ {σ : State 1} {e : Event 1}, (∀ k r msg, e ≠ .push k r msg) →
      PushesInTime σ e := fun no k r msg eq => absurd eq (no k r msg)
  have h0 : ((node 1).restrict PushesInTime).Run _ _ := .init rfl
  have h1 := h0.step ⟨.service (.newService _), quiet (by simp)⟩
  have h2 := h1.step ⟨.service (.onInit (r := 0) rfl), quiet (by simp)⟩
  have h3 := h2.step ⟨.service (.onInitReturn (r := 0) rfl), quiet (by simp)⟩
  have h4 := h3.step ⟨.call (.send (k := 0) 1 (request 1) rfl), quiet (by simp)⟩
  have h5 := h4.step ⟨.call (.sendFound (k := 0) (r := 0) rfl rfl), quiet (by simp)⟩
  have h6 := h5.step ⟨.call (.kill (k := 1) 1 rfl), quiet (by simp)⟩
  have h7 := h6.step ⟨.call (.killFound (k := 1) (r := 0) rfl rfl), quiet (by simp)⟩
  have h8 := h7.step ⟨.call (.killErase (k := 1) rfl), quiet (by simp)⟩
  have h9 := h8.step ⟨.call (.killName (k := 1) rfl), quiet (by simp)⟩
  have h10 := h9.step ⟨.call (.killMark (k := 1) rfl), quiet (by simp)⟩
  have h11 := h10.step ⟨.call (.killRead (k := 1) (r := 0) rfl), quiet (by simp)⟩
  have h12 := h11.step ⟨.call (.killEnter (k := 1) (r := 0) rfl), quiet (by simp)⟩
  have h13 := h12.step ⟨.wake (.wakeTest (k := 1) rfl), quiet (by simp)⟩
  have h14 := h13.step ⟨.sleep (.take (w := 0) (r := 0) rfl rfl), quiet (by simp)⟩
  have h15 := h14.step ⟨.turn (.readLength (w := 0) rfl rfl), quiet (by simp)⟩
  have h16 := h15.step ⟨.turn (.processNone (w := 0) (i := 0) rfl rfl rfl), quiet (by simp)⟩
  have h17 := h16.step ⟨.turn (.testExiting (w := 0) rfl rfl rfl), quiet (by simp)⟩
  have h18 := h17.step ⟨.call (.sendPush (k := 0) rfl rfl), by
    rintro k r msg ⟨⟩ retired
    exact retired.2 0 rfl⟩
  have h19 := h18.step ⟨.call (.sendEnter (k := 0) rfl), quiet (by simp)⟩
  have h20 := h19.step ⟨.turn (.onExitReturn (w := 0) (r := 0) rfl rfl), quiet (by simp)⟩
  have h21 := h20.step ⟨.turn (.clearDrop (w := 0) rfl rfl rfl), quiet (by simp)⟩
  have h22 := h21.step ⟨.turn (.clearDone (w := 0) rfl rfl), quiet (by simp)⟩
  refine ⟨_, _, h22, ⟨rfl, fun w => ?_⟩, rfl, conserved_of_pushesInTime h22 0 ?_ ⟨rfl, fun w => ?_⟩⟩
  · rw [Subsingleton.elim w 0]
    exact nofun
  · rintro (_ | _ | k) <;> rfl
  · rw [Subsingleton.elim w 0]
    exact nofun

/-- A sender that found the service pushes after the end of its exit path: the request is neither
processed nor dropped. -/
theorem not_conserved_push :
    ¬ ∀ (σ : State 1) (tr : List (Event 1)), (node 1).Run σ tr → ∀ r, Conserved σ tr r := by
  intro claim
  have h0 : (node 1).Run _ _ := .init rfl
  have h1 := h0.step (.service (.newService _))
  have h2 := h1.step (.service (.onInit (r := 0) rfl))
  have h3 := h2.step (.service (.onInitReturn (r := 0) rfl))
  have h4 := h3.step (.call (.send (k := 0) 1 (request 1) rfl))
  have h5 := h4.step (.call (.sendFound (k := 0) (r := 0) rfl rfl))
  have h6 := h5.step (.call (.kill (k := 1) 1 rfl))
  have h7 := h6.step (.call (.killFound (k := 1) (r := 0) rfl rfl))
  have h8 := h7.step (.call (.killErase (k := 1) rfl))
  have h9 := h8.step (.call (.killName (k := 1) rfl))
  have h10 := h9.step (.call (.killMark (k := 1) rfl))
  have h11 := h10.step (.call (.killRead (k := 1) (r := 0) rfl))
  have h12 := h11.step (.call (.killEnter (k := 1) (r := 0) rfl))
  have h13 := h12.step (.wake (.wakeTest (k := 1) rfl))
  have h14 := h13.step (.sleep (.take (w := 0) (r := 0) rfl rfl))
  have h15 := h14.step (.turn (.readLength (w := 0) rfl rfl))
  have h16 := h15.step (.turn (.processNone (w := 0) (i := 0) rfl rfl rfl))
  have h17 := h16.step (.turn (.testExiting (w := 0) rfl rfl rfl))
  have h18 := h17.step (.turn (.onExitReturn (w := 0) (r := 0) rfl rfl))
  have h19 := h18.step (.turn (.clearDone (w := 0) rfl rfl))
  have h20 := h19.step (.call (.sendPush (k := 0) rfl rfl))
  have h21 := h20.step (.call (.sendEnter (k := 0) rfl))
  refine absurd (claim _ _ h21 0 ?_ ⟨rfl, fun w => ?_⟩).2 (List.cons_ne_nil _ _)
  · rintro (_ | _ | k) <;> rfl
  · rw [Subsingleton.elim w 0]
    exact nofun

end Starnet.Core
