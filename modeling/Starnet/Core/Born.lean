import Starnet.Core.Step

/-! What holds of the services of a node in every reachable state: no thread refers to a service
that `NewService` has not created, and a created service only moves forward. -/

namespace Starnet.Core

open Transition

variable {n : Nat}

/-! ### Services that do not exist yet -/

/-- No list, call or worker refers to a service that `NewService` has not created, and such a
service is in its default state. -/
structure Born (σ : State n) : Prop where
  services : ∀ entry ∈ σ.services, entry.2 < σ.nextRef
  queue : ∀ r ∈ σ.globalQueue, r < σ.nextRef
  call : ∀ k r, (σ.call k).target = some r → r < σ.nextRef
  worker : ∀ w r, (σ.worker w).held = some r → r < σ.nextRef
  srv : ∀ r, σ.nextRef ≤ r → σ.srv r = {}

namespace Born

variable {σ : State n} {e : Event n}

theorem initial : Born (State.initial n) := by
  constructor <;> simp [State.initial, CallPc.target, WorkerPc.held]

theorem found (born : Born σ) {id : UInt32} {r : ServiceRef} (h : σ.getService id = some r) :
    r < σ.nextRef := by
  obtain ⟨before, after, eq, -⟩ := List.lookup_eq_some_iff.mp h
  exact born.services (id, r) (by rw [eq]; simp)

theorem setCall (born : Born σ) (k : Nat) {pc : CallPc}
    (h : ∀ r, pc.target = some r → r < σ.nextRef) : Born (σ.setCall k pc) := by
  refine { born with call := fun k' r target => ?_ }
  by_cases same : k' = k
  · subst same
    exact h r (by simpa using target)
  · exact born.call k' r (by rwa [State.setCall_call_other _ _ _ same] at target)

theorem setWorker (born : Born σ) (w : Fin n) {pc : WorkerPc}
    (h : ∀ r, pc.held = some r → r < σ.nextRef) : Born (σ.setWorker w pc) := by
  refine { born with worker := fun w' r held => ?_ }
  by_cases same : w' = w
  · subst same
    exact h r (by simpa using held)
  · exact born.worker w' r (by rwa [State.setWorker_worker_other _ _ _ same] at held)

theorem modService (born : Born σ) {r : ServiceRef} (h : r < σ.nextRef) (f : Service → Service) :
    Born (σ.modService r f) := by
  refine { born with srv := fun r' le => ?_ }
  rw [State.modService_srv_other _ _ _ (Nat.lt_of_lt_of_le h le).ne']
  exact born.srv r' le

theorem push (born : Born σ) {r : ServiceRef} (h : r < σ.nextRef) :
    Born { σ with globalQueue := σ.globalQueue ++ [r] } := by
  refine { born with queue := fun r' mem => ?_ }
  rcases List.mem_append.mp mem with old | new
  · exact born.queue r' old
  · exact List.mem_singleton.mp new ▸ h

theorem newService (born : Born σ) : Born σ.newService := by
  have grow : ∀ r, r < σ.nextRef → r < σ.newService.nextRef := fun _ h => Nat.lt_succ_of_lt h
  constructor
  · intro entry mem
    simp only [State.newService] at mem
    split at mem
    · exact grow _ (born.services entry mem)
    · rcases List.mem_append.mp mem with old | new
      · exact grow _ (born.services entry old)
      · rw [List.mem_singleton.mp new]
        exact Nat.lt_succ_self _
  · exact fun r mem => grow r (born.queue r mem)
  · exact fun k r target => grow r (born.call k r target)
  · exact fun w r held => grow r (born.worker w r held)
  · intro r le
    have lt : σ.nextRef < r := Nat.lt_of_succ_le le
    simp only [State.newService]
    rw [Function.update_of_ne lt.ne']
    exact born.srv r lt.le

theorem tryEnterGlobal (born : Born σ) {r : ServiceRef} (h : r < σ.nextRef) :
    Born (σ.tryEnterGlobal r) := by
  cases inside : (σ.srv r).mq.inGlobal with
  | true => rwa [State.tryEnterGlobal_inside inside]
  | false =>
    rw [State.tryEnterGlobal_outside inside]
    exact (born.modService h _).push h

theorem finishDispatch (born : Born σ) {r : ServiceRef} (h : r < σ.nextRef) :
    Born (σ.finishDispatch r) := by
  by_cases empty : (σ.srv r).mq.msgQueue = []
  · rw [State.finishDispatch_empty empty]
    exact born.modService h _
  · rw [State.finishDispatch_nonempty empty]
    exact born.push h

theorem unborn (born : Born σ) {r : ServiceRef} (h : (σ.srv r).phase ≠ .unborn) :
    r < σ.nextRef := by
  by_contra ge
  exact h (by rw [born.srv r (Nat.le_of_not_lt ge)])

theorem afterEnter_target (σ : State n) (r : ServiceRef) : (σ.afterEnter r).target = none := by
  unfold State.afterEnter
  split <;> rfl

theorem serviceStep {σ' : State n} (born : Born σ) (step : ServiceStep σ e σ') : Born σ' := by
  cases step with
  | newService => exact born.newService
  | onInit h => exact born.modService (born.unborn (by simp [h])) _
  | onInitReturn h => exact born.modService (born.unborn (by simp [h])) _
  | nameService => exact { born with }

theorem callStep {σ' : State n} (born : Born σ) (step : CallStep σ e σ') : Born σ' := by
  have target : ∀ {k r}, (σ.call k).target = some r → r < σ.nextRef := fun h => born.call _ _ h
  cases step with
  | send | sendMissed | kill | killMissed => exact born.setCall _ (by simp [CallPc.target])
  | sendFound _ found | killFound _ found =>
    exact born.setCall _ (by simpa [CallPc.target] using born.found found)
  | sendPush h =>
    have lt := target (by rw [h]; rfl)
    exact (born.modService lt _).setCall _ (by simpa [CallPc.target] using lt)
  | sendEnter h | killEnter h =>
    exact (born.tryEnterGlobal (target (by rw [h]; rfl))).setCall _ (by simp [afterEnter_target])
  | killErase h =>
    refine Born.setCall ?_ _ ?_
    · exact { born with
        services := fun entry mem => born.services entry (List.mem_of_mem_filter mem) }
    · rintro r ⟨⟩
      exact target (by rw [h]; rfl)
  | killName h =>
    refine Born.setCall ?_ _ ?_
    · exact { born with }
    · rintro r ⟨⟩
      exact target (by rw [h]; rfl)
  | killMark h =>
    have lt := target (by rw [h]; rfl)
    exact (born.modService lt _).setCall _ (by simpa [CallPc.target] using lt)
  | killRead h =>
    refine born.setCall _ ?_
    split
    · simp [CallPc.target]
    · simpa [CallPc.target] using target (by rw [h]; rfl)

theorem wakeStep {σ' : State n} (born : Born σ) (step : WakeStep σ e σ') : Born σ' := by
  cases step with
  | wakeTest | wakeLength => refine born.setCall _ ?_; split <;> simp [CallPc.target]
  | wakeCount | wakeNone => exact born.setCall _ (by simp [CallPc.target])
  | wakeSignal => exact (born.setWorker _ (by simp [WorkerPc.held])).setCall _ (by simp [CallPc.target])

theorem sleepStep {σ' : State n} (born : Born σ) (step : SleepStep σ e σ') : Born σ' := by
  cases step with
  | take _ queue =>
    refine Born.setWorker ?_ _ ?_
    · exact { born with
        queue := fun r mem => born.queue r (by rw [queue]; exact List.mem_cons_of_mem _ mem) }
    · simpa [WorkerPc.held] using born.queue _ (by rw [queue]; exact List.mem_cons_self ..)
  | takeNone | spurious => exact born.setWorker _ (by simp [WorkerPc.held])
  | readExit => refine born.setWorker _ ?_; split <;> simp [WorkerPc.held]
  | lockSleep | condWait | resume =>
    refine Born.setWorker ?_ _ ?_
    · exact { born with }
    · simp [WorkerPc.held]

theorem turnStep {σ' : State n} (born : Born σ) (step : TurnStep σ e σ') : Born σ' := by
  have held : ∀ {w r}, (σ.worker w).held = some r → r < σ.nextRef := fun h => born.worker _ _ h
  cases step with
  | readLength h | processDone h | onMsgReturn h | testLive h | clearResume h =>
    exact born.setWorker _ (by simpa [WorkerPc.held] using held (by rw [h]; rfl))
  | processPop h | processNone h | readOverload h | testExiting h | onExitReturn h =>
    have lt := held (by rw [h]; rfl)
    exact (born.modService lt _).setWorker _ (by simpa [WorkerPc.held] using lt)
  | testExited => exact born.setWorker _ (by simp [WorkerPc.held])
  | finish h => exact (born.finishDispatch (held (by rw [h]; rfl))).setWorker _ (by simp [WorkerPc.held])
  | clearDrop h => exact born.modService (held (by rw [h]; rfl)) _
  | clearSend h =>
    have lt := held (by rw [h]; rfl)
    exact ((born.modService lt _).setCall _ (by simp [CallPc.target])).setWorker _
      (by simpa [WorkerPc.held] using lt)
  | clearDone h => exact (born.modService (held (by rw [h]; rfl)) _).setWorker _ (by simp [WorkerPc.held])

theorem mainStep {σ' : State n} (born : Born σ) (step : MainStep σ e σ') : Born σ' := by
  cases step with
  | killAll | killReturn | setExit => exact { born with }
  | killNext =>
    refine Born.setCall ?_ _ ?_
    · exact { born with }
    · simp [CallPc.target]
  | wakeAll =>
    refine { born with worker := fun w r held => born.worker w r ?_ }
    simp only [State.broadcast] at held
    split at held
    · simp [WorkerPc.held] at held
    · exact held

theorem step {σ' : State n} (born : Born σ) (step : Step σ e σ') : Born σ' := by
  cases step with
  | service h => exact born.serviceStep h
  | call h => exact born.callStep h
  | wake h => exact born.wakeStep h
  | sleep h => exact born.sleepStep h
  | turn h => exact born.turnStep h
  | main h => exact born.mainStep h

theorem run {tr : List (Event n)} (run : (node n).Run σ tr) : Born σ :=
  run.stateInvariant (fun _ h => h ▸ initial) fun _ _ _ born step => born.step step

end Born

/-! ### Services only move forward -/

/-- How a step may change a service. -/
structure Service.Grows (s s' : Service) : Prop where
  returned : s.phase = .returned → s'.phase = .returned
  isExiting : s.isExiting = true → s'.isExiting = true
  exited : s.exited = true → s'.exited = true
  exit : s'.exited = true → s.exited = true ∨ s.isExiting = true

variable {σ σ' : State n} {e : Event n}

theorem Service.Grows.refl (s : Service) : s.Grows s :=
  ⟨fun h => h, fun h => h, fun h => h, .inl⟩

theorem Service.Grows.fresh (s : Service) (exited : s.exited = false) :
    ({} : Service).Grows s := by
  constructor <;> simp [exited]

theorem Step.grows (born : Born σ) (step : Step σ e σ') (r : ServiceRef) :
    (σ.srv r).Grows (σ'.srv r) := by
  have update : ∀ (r' : ServiceRef) (s : Service), (σ.srv r').Grows s →
      (σ.srv r).Grows (Function.update σ.srv r' s r) := by
    intro r' s grows
    by_cases same : r = r'
    · subst same
      rwa [Function.update_self]
    · rw [Function.update_of_ne same]
      exact .refl _
  cases step with
  | service step =>
    cases step with
    | newService =>
      refine update σ.nextRef _ ?_
      rw [born.srv σ.nextRef le_rfl]
      exact .fresh _ rfl
    | onInit h | onInitReturn h =>
      exact update _ _ ⟨fun returned => absurd (h.symm.trans returned) (by decide), id, id, .inl⟩
    | nameService => exact .refl _
  | call step =>
    cases step with
    | sendPush | sendEnter | killEnter => exact update _ _ ⟨id, id, id, .inl⟩
    | killMark => exact update _ _ ⟨id, fun _ => rfl, id, .inl⟩
    | _ => exact .refl _
  | wake step => cases step <;> exact .refl _
  | sleep step => cases step <;> exact .refl _
  | turn step =>
    cases step with
    | processPop | processNone | readOverload | finish | onExitReturn | clearDrop | clearSend
    | clearDone => exact update _ _ ⟨id, id, id, .inl⟩
    | testExiting h exiting => exact update _ _ ⟨id, id, fun _ => rfl, fun _ => .inr exiting⟩
    | _ => exact .refl _
  | main step => cases step <;> exact .refl _

/-- References to services are never given out again. -/
theorem Step.nextRef_le (step : Step σ e σ') : σ.nextRef ≤ σ'.nextRef := by
  cases step with
  | service step =>
    cases step with
    | newService => exact Nat.le_succ _
    | onInit | onInitReturn | nameService => exact le_rfl
  | call step => cases step <;> exact le_rfl
  | wake step => cases step <;> exact le_rfl
  | sleep step => cases step <;> exact le_rfl
  | turn step => cases step <;> exact le_rfl
  | main step => cases step <;> exact le_rfl

/-- Only a service that `KillService` has marked exits. -/
theorem isExiting_of_exited {tr : List (Event n)} (run : (node n).Run σ tr) (r : ServiceRef) :
    (σ.srv r).exited = true → (σ.srv r).isExiting = true := by
  refine run.invariant (P := fun σ _ => (σ.srv r).exited = true → (σ.srv r).isExiting = true)
    ?_ ?_
  · rintro σ rfl exited
    contradiction
  · intro σ tr e σ' run marked step exited
    have grows := step.grows (Born.run run) r
    exact grows.isExiting ((grows.exit exited).elim marked id)

/-! ### Where references to services come from -/

/-- A worker comes to hold a service only when it takes it from the global queue. -/
theorem Step.held_of (step : Step σ e σ') {w : Fin n} {r : ServiceRef}
    (h : (σ'.worker w).held = some r) : (σ.worker w).held = some r ∨ e = .take w r := by
  have same : ∀ {τ : State n} {w' : Fin n} {pc : WorkerPc}, τ.worker = σ.worker →
      pc.held = none ∨ pc.held = (σ.worker w').held →
      ((τ.setWorker w' pc).worker w).held = some r → (σ.worker w).held = some r := by
    intro τ w' pc eq keeps held
    by_cases worker : w = w'
    · subst worker
      rw [State.setWorker_worker_same] at held
      rcases keeps with none | keeps
      · rw [none] at held
        contradiction
      · rw [← keeps, held]
    · rwa [State.setWorker_worker_other _ _ _ worker, eq] at held
  cases step with
  | service step => cases step <;> exact .inl h
  | call step => cases step <;> exact .inl h
  | wake step =>
    cases step with
    | wakeTest | wakeCount | wakeLength | wakeNone => exact .inl h
    | wakeSignal => exact .inl (same rfl (.inl rfl) h)
  | sleep step =>
    cases step with
    | @take w' r' rest =>
      by_cases worker : w = w'
      · subst worker
        rw [State.setWorker_worker_same] at h
        cases h
        exact .inr rfl
      · rw [State.setWorker_worker_other _ _ _ worker] at h
        exact .inl h
    | takeNone | lockSleep | condWait | spurious | resume => exact .inl (same rfl (.inl rfl) h)
    | readExit => exact .inl (same rfl (.inl (by split <;> rfl)) h)
  | turn step =>
    cases step with
    | testExited | finish | clearDone => exact .inl (same rfl (.inl rfl) h)
    | clearDrop => exact .inl h
    | readLength hw | processDone hw | processPop hw | processNone hw | readOverload hw
    | onMsgReturn hw | testLive hw | testExiting hw | onExitReturn hw | clearSend hw
    | clearResume hw => exact .inl (same rfl (.inr (by rw [hw]; rfl)) h)
  | main step =>
    cases step with
    | killAll | killNext | killReturn | setExit => exact .inl h
    | wakeAll =>
      simp only [State.broadcast] at h
      split at h
      · contradiction
      · exact .inl h

/-- A call comes to hold a service only when it finds it in the services map. -/
theorem Step.target_of {r : ServiceRef} (step : Step σ e σ') {k : Nat}
    (target : (σ'.call k).target = some r) :
    (σ.call k).target = some r ∨ ∃ id, σ.getService id = some r := by
  have other : ∀ {τ : State n} {k' : Nat} {pc : CallPc}, τ.call = σ.call →
      (pc.target = some r → (σ.call k').target = some r ∨ ∃ id, σ.getService id = some r) →
      ((τ.setCall k' pc).call k).target = some r →
      (σ.call k).target = some r ∨ ∃ id, σ.getService id = some r := by
    intro τ k' pc calls moves target
    by_cases same : k = k'
    · subst same
      rw [State.setCall_call_same] at target
      exact moves target
    · rw [State.setCall_call_other _ _ _ same, calls] at target
      exact .inl target
  cases step with
  | service step => cases step <;> exact .inl target
  | call step =>
    cases step with
    | send | sendMissed | kill | killMissed => exact other rfl (by rintro ⟨⟩) target
    | sendFound _ found | killFound _ found =>
      exact other rfl (fun same => .inr ⟨_, by cases same; exact found⟩) target
    | sendPush h | killErase h | killName h | killMark h =>
      exact other rfl (fun same => .inl (by rw [h]; exact same)) target
    | sendEnter | killEnter =>
      refine other rfl (fun same => ?_) target
      rw [Born.afterEnter_target] at same
      contradiction
    | killRead h =>
      refine other rfl (fun same => .inl ?_) target
      split at same
      · contradiction
      · rw [h]; exact same
  | wake step =>
    cases step with
    | wakeTest | wakeLength =>
      refine other rfl (fun same => ?_) target
      split at same <;> contradiction
    | wakeCount | wakeSignal | wakeNone => exact other rfl (by rintro ⟨⟩) target
  | sleep step => cases step <;> exact .inl target
  | turn step =>
    cases step with
    | @clearSend w r' msg rest toId err k' => exact other (τ := σ.modQueue r' _) rfl (by rintro ⟨⟩) target
    | _ => exact .inl target
  | main step =>
    cases step with
    | @killNext id ids k' h =>
      exact other (τ := { σ with main := .killCall ids k' }) rfl (by rintro ⟨⟩) target
    | _ => exact .inl target

end Starnet.Core
