import Starnet.Core.Token

/-! Retirement of a service. `KillService` marks the service and schedules it unless `inGlobal` says
that it is scheduled already. A worker that tested `isExiting` before the mark and has not yet run
`FinishDispatch` still keeps `inGlobal` true, and its `FinishDispatch` may put the service nowhere.
When no call reads `inGlobal` in this window, a marked service always reaches its exit path. -/

namespace Starnet.Core

open Transition

variable {n : Nat} {σ σ' : State n} {e : Event n} {r : ServiceRef}

/-- The service on which a call of `KillService` is in progress. -/
def CallPc.kills : CallPc → Option ServiceRef
  | killErase _ srv | killName _ srv | killMark srv | killRead srv | killEnter srv => some srv
  | _ => none

/-- The service that a call of `KillService` has marked and may still schedule. -/
def CallPc.schedules : CallPc → Option ServiceRef
  | killRead srv | killEnter srv => some srv
  | _ => none

/-- A marked service that has not exited and is not being killed is in the global queue or held by a
worker that has yet to test `isExiting`. -/
def ExitGuaranteed (σ : State n) (r : ServiceRef) : Prop :=
  (σ.srv r).isExiting = true → (σ.srv r).exited = false →
    (∀ k, (σ.call k).kills ≠ some r) →
    r ∈ σ.globalQueue ∨ ∃ w, (σ.worker w).untested = some r

/-- A call that reads `inGlobal` of a service finds no worker between its test of `isExiting` and
its `FinishDispatch` on that service. -/
def ReadsSettled (σ : State n) (e : Event n) : Prop :=
  ∀ k r, e = .readInGlobal k r → ∀ w, σ.worker w ≠ .finish r

theorem CallPc.kills_of_schedules {pc : CallPc} (h : pc.schedules = some r) :
    pc.kills = some r := by
  cases pc <;> simp_all [CallPc.schedules, CallPc.kills]

/-- A worker that holds a service outside the exit path has not tested `isExiting` or stands before
`FinishDispatch`. -/
theorem WorkerPc.untested_or_finish {pc : WorkerPc} (held : pc.held = some r)
    (exiting : pc.exiting = none) : pc.untested = some r ∨ pc = .finish r := by
  cases pc <;> simp_all [WorkerPc.held, WorkerPc.exiting, WorkerPc.untested]

theorem CallPc.not_kills_of_idle (idle : ∀ k, σ.call k = .idle) (k : Nat) :
    (σ.call k).kills ≠ some r := by
  simp [idle k, CallPc.kills]

theorem WorkerPc.held_of_exiting {pc : WorkerPc} (h : pc.exiting = some r) :
    pc.held = some r := by
  cases pc <;> simp_all [WorkerPc.exiting, WorkerPc.held]

/-- The retirement of service `r`: a call that may still schedule it has marked it, and one that
found it outside the global queue leaves no worker before `FinishDispatch`; a marked service keeps
such a call, a place in the global queue or a worker that will see the mark. -/
structure Retiring (σ : State n) (r : ServiceRef) : Prop where
  marked : ∀ k, (σ.call k).schedules = some r → (σ.srv r).isExiting = true
  settled : ∀ k, σ.call k = .killEnter r → ∀ w, σ.worker w ≠ .finish r
  reaches : (σ.srv r).isExiting = true → (σ.srv r).exited = false →
    (∃ k, (σ.call k).schedules = some r) ∨ r ∈ σ.globalQueue ∨
      ∃ w, (σ.worker w).untested = some r

namespace Retiring

theorem initial (r : ServiceRef) : Retiring (State.initial n) r := by
  constructor <;> simp [State.initial, CallPc.schedules]

/-- A step that changes nothing that the retirement of `r` reads keeps it. -/
theorem keep (t : Retiring σ r) (isExiting : (σ'.srv r).isExiting = (σ.srv r).isExiting)
    (exited : (σ'.srv r).exited = (σ.srv r).exited)
    (queue : r ∈ σ.globalQueue → r ∈ σ'.globalQueue)
    (schedules : ∀ k, (σ'.call k).schedules = some r ↔ (σ.call k).schedules = some r)
    (enter : ∀ k, σ'.call k = .killEnter r → σ.call k = .killEnter r)
    (untested : ∀ w, (σ.worker w).untested = some r → (σ'.worker w).untested = some r)
    (finish : ∀ w, σ'.worker w = .finish r → σ.worker w = .finish r) : Retiring σ' r := by
  refine ⟨fun k hk => ?_, fun k hk w hw => t.settled k (enter k hk) w (finish w hw),
    fun marked live => ?_⟩
  · rw [isExiting]
    exact t.marked k ((schedules k).mp hk)
  · rcases t.reaches (isExiting ▸ marked) (exited ▸ live) with ⟨k, hk⟩ | mem | ⟨w, hw⟩
    · exact .inl ⟨k, (schedules k).mpr hk⟩
    · exact .inr (.inl (queue mem))
    · exact .inr (.inr ⟨w, untested w hw⟩)

/-- A step of call `k` outside the part of `KillService` that schedules. -/
theorem setCall (t : Retiring σ r) {k : Nat} {pc : CallPc} (before : (σ.call k).schedules = none)
    (after : pc.schedules = none) : Retiring (σ.setCall k pc) r := by
  refine t.keep rfl rfl id ?_ ?_ (fun _ => id) (fun _ => id)
  · exact State.setCall_iff σ k (p := fun pc => pc.schedules = some r) (by simp [before, after])
  · intro k' hk'
    by_cases same : k' = k
    · subst same
      rw [State.setCall_call_same] at hk'
      simp [hk', CallPc.schedules] at after
    · rwa [State.setCall_call_other _ _ _ same] at hk'

/-- A step of worker `w` that tests no `isExiting`. -/
theorem setWorker (t : Retiring σ r) {w : Fin n} {pc : WorkerPc}
    (untested : ∀ r, (σ.worker w).untested = some r → pc.untested = some r)
    (finish : ∀ r, pc ≠ .finish r) : Retiring (σ.setWorker w pc) r := by
  refine t.keep rfl rfl id (fun _ => Iff.rfl) (fun _ => id) (fun w' hw' => ?_) (fun w' hw' => ?_)
  · by_cases same : w' = w
    · subst same
      rw [State.setWorker_worker_same]
      exact untested r hw'
    · rwa [State.setWorker_worker_other _ _ _ same]
  · by_cases same : w' = w
    · subst same
      rw [State.setWorker_worker_same] at hw'
      exact absurd hw' (finish r)
    · rwa [State.setWorker_worker_other _ _ _ same] at hw'

theorem modService (t : Retiring σ r) (r' : ServiceRef) {f : Service → Service}
    (isExiting : (f (σ.srv r')).isExiting = (σ.srv r').isExiting)
    (exited : (f (σ.srv r')).exited = (σ.srv r').exited) : Retiring (σ.modService r' f) r :=
  t.keep (State.modService_keeps σ r' (g := fun s => s.isExiting) isExiting r)
    (State.modService_keeps σ r' (g := fun s => s.exited) exited r) id (fun _ => Iff.rfl)
    (fun _ => id) (fun _ => id) (fun _ => id)

theorem modQueue (t : Retiring σ r) (r' : ServiceRef) (f : StarnetMQ → StarnetMQ) :
    Retiring (σ.modQueue r' f) r :=
  t.modService r' rfl rfl

theorem push (t : Retiring σ r) (r' : ServiceRef) :
    Retiring { σ with globalQueue := σ.globalQueue ++ [r'] } r :=
  t.keep rfl rfl (fun mem => List.mem_append_left _ mem) (fun _ => Iff.rfl) (fun _ => id)
    (fun _ => id) (fun _ => id)

theorem tryEnterGlobal (t : Retiring σ r) (r' : ServiceRef) : Retiring (σ.tryEnterGlobal r') r := by
  cases inside : (σ.srv r').mq.inGlobal with
  | true => rwa [State.tryEnterGlobal_inside inside]
  | false =>
    rw [State.tryEnterGlobal_outside inside]
    exact (t.modQueue r' _).push r'

theorem finishDispatch (t : Retiring σ r) (r' : ServiceRef) : Retiring (σ.finishDispatch r') r := by
  by_cases empty : (σ.srv r').mq.msgQueue = []
  · rw [State.finishDispatch_empty empty]
    exact t.modQueue r' _
  · rw [State.finishDispatch_nonempty empty]
    exact t.push r'

/-- A scheduled service that no worker keeps before `FinishDispatch` will be seen marked. -/
theorem reaches_of_inGlobal (token : Token σ r) (live : (σ.srv r).exited = false)
    (inside : (σ.srv r).mq.inGlobal = true) (settled : ∀ w, σ.worker w ≠ .finish r) :
    r ∈ σ.globalQueue ∨ ∃ w, (σ.worker w).untested = some r := by
  have sum := token.live live
  rw [inside, if_pos rfl] at sum
  rcases Nat.eq_zero_or_pos (σ.globalQueue.count r) with absent | present
  · have one : σ.holders r ≠ 0 := by omega
    obtain ⟨w, hw⟩ := not_forall.mp fun none => one (tally_eq_zero.mpr none)
    have held : (σ.worker w).held = some r := by simpa using hw
    have exiting : (σ.worker w).exiting = none := by
      cases h : (σ.worker w).exiting with
      | none => rfl
      | some r' =>
        have same : some r' = some r := (WorkerPc.held_of_exiting h).symm.trans held
        rw [same] at h
        rw [(token.phase w held).mp h] at live
        contradiction
    exact .inr ⟨w, (WorkerPc.untested_or_finish held exiting).resolve_right (settled w)⟩
  · exact .inl (List.count_pos_iff.mp present)

theorem schedules_afterEnter (σ : State n) (r : ServiceRef) : (σ.afterEnter r).schedules = none := by
  unfold State.afterEnter
  split <;> rfl

theorem mark (t : Retiring σ r) {k : Nat} {r' : ServiceRef} (h : σ.call k = .killMark r') :
    Retiring ((σ.modService r' fun s => { s with isExiting := true }).setCall k (.killRead r')) r := by
  by_cases same : r = r'
  · subst same
    refine ⟨fun _ _ => by simp, fun k' hk' => ?_, fun _ _ => .inl ⟨k, by simp [CallPc.schedules]⟩⟩
    have ne : k' ≠ k := by
      rintro rfl
      simp at hk'
    rw [State.setCall_call_other _ _ _ ne] at hk'
    exact t.settled k' hk'
  · refine t.keep ?_ ?_ id ?_ ?_ (fun _ => id) (fun _ => id)
    · simp [State.modService_srv_other _ _ _ same]
    · simp [State.modService_srv_other _ _ _ same]
    · exact State.setCall_iff (σ.modService r' _) k (p := fun pc => pc.schedules = some r)
        (by simp [h, CallPc.schedules, Ne.symm same])
    · intro k' hk'
      by_cases call : k' = k
      · subst call
        simp at hk'
      · rwa [State.setCall_call_other _ _ _ call] at hk'

/-- A call of `KillService` that leaves its schedule of `r'` to others changes nothing for another
service. -/
theorem leave_other (t : Retiring σ r) {k : Nat} {r' : ServiceRef} {pc : CallPc} (ne : r ≠ r')
    (before : (σ.call k).schedules = some r')
    (after : pc.schedules = none ∨ pc.schedules = some r') : Retiring (σ.setCall k pc) r := by
  have off : pc.schedules ≠ some r := by
    rcases after with after | after <;> simp [after, Ne.symm ne]
  refine t.keep rfl rfl id ?_ ?_ (fun _ => id) (fun _ => id)
  · exact State.setCall_iff σ k (p := fun pc => pc.schedules = some r)
      (by simp [before, off, Ne.symm ne])
  · intro k' hk'
    by_cases same : k' = k
    · subst same
      rw [State.setCall_call_same] at hk'
      simp [hk', CallPc.schedules] at off
    · rwa [State.setCall_call_other _ _ _ same] at hk'

/-- The end of the schedule of `r` by call `k`, when `r` reaches a worker without it. -/
theorem leave (t : Retiring σ r) {k : Nat} {pc : CallPc}
    (after : pc.schedules = none) (reaches : (σ.srv r).exited = false →
      r ∈ σ.globalQueue ∨ ∃ w, (σ.worker w).untested = some r) : Retiring (σ.setCall k pc) r := by
  refine ⟨fun k' hk' => ?_, fun k' hk' => ?_, fun _ live => .inr (reaches live)⟩ <;>
  · have ne : k' ≠ k := by
      rintro rfl
      rw [State.setCall_call_same] at hk'
      simp_all [CallPc.schedules]
    rw [State.setCall_call_other _ _ _ ne] at hk'
    first
    | exact t.marked k' hk'
    | exact t.settled k' hk'

/-- A call reads `inGlobal` of a service that no worker keeps before `FinishDispatch`. -/
theorem read (t : Retiring σ r) (token : Token σ r) {k : Nat} {r' : ServiceRef}
    (h : σ.call k = .killRead r') (settled : ∀ w, σ.worker w ≠ .finish r') :
    Retiring (σ.setCall k (if (σ.srv r').mq.inGlobal then .idle else .killEnter r')) r := by
  have before : (σ.call k).schedules = some r' := by rw [h]; rfl
  by_cases same : r = r'
  · subst same
    cases inside : (σ.srv r).mq.inGlobal with
    | true => exact t.leave rfl fun live => reaches_of_inGlobal token live inside settled
    | false =>
      have marked := t.marked k before
      refine ⟨fun _ _ => marked, fun _ _ => settled, fun _ _ => .inl ⟨k, ?_⟩⟩
      simp [CallPc.schedules]
  · refine t.leave_other same before ?_
    split
    · exact .inl rfl
    · exact .inr rfl

/-- `TryEnterGlobal` of a call of `KillService` schedules the service or finds it scheduled. -/
theorem enter (t : Retiring σ r) (token : Token σ r) {k : Nat} {r' : ServiceRef}
    (h : σ.call k = .killEnter r') :
    Retiring ((σ.tryEnterGlobal r').setCall k (σ.afterEnter r')) r := by
  have before : ((σ.tryEnterGlobal r').call k).schedules = some r' := by
    show (σ.call k).schedules = some r'
    rw [h]; rfl
  by_cases same : r = r'
  · subst same
    refine (t.tryEnterGlobal r).leave (schedules_afterEnter σ r) fun live => ?_
    cases inside : (σ.srv r).mq.inGlobal with
    | true =>
      rw [State.tryEnterGlobal_inside inside] at live ⊢
      exact reaches_of_inGlobal token live inside (t.settled k h)
    | false =>
      rw [State.tryEnterGlobal_outside inside]
      exact .inl (List.mem_append_right _ (List.mem_singleton_self r))
  · exact (t.tryEnterGlobal r').leave_other same before (.inl (schedules_afterEnter σ r'))

theorem callStep (t : Retiring σ r) (token : Token σ r) (step : CallStep σ e σ')
    (settled : ReadsSettled σ e) : Retiring σ' r := by
  cases step with
  | send _ _ h | sendFound h | sendMissed h | kill _ h | killFound h | killMissed h =>
    exact t.setCall (by rw [h]; rfl) rfl
  | sendPush h => exact (t.modQueue _ _).setCall (by rw [State.modQueue]; simp [h, CallPc.schedules]) rfl
  | sendEnter h =>
    refine (t.tryEnterGlobal _).setCall ?_ (schedules_afterEnter _ _)
    show (σ.call _).schedules = none
    rw [h]; rfl
  | killErase h =>
    refine Retiring.setCall (σ := σ.eraseService _) ?_ (by simp [State.eraseService, h, CallPc.schedules]) rfl
    exact t.keep rfl rfl id (fun _ => Iff.rfl) (fun _ => id) (fun _ => id) (fun _ => id)
  | killName h =>
    refine Retiring.setCall (σ := σ.removeName _) ?_ (by simp [State.removeName, h, CallPc.schedules]) rfl
    exact t.keep rfl rfl id (fun _ => Iff.rfl) (fun _ => id) (fun _ => id) (fun _ => id)
  | killMark h => exact t.mark h
  | killRead h => exact t.read token h (settled _ _ rfl)
  | killEnter h => exact t.enter token h

theorem serviceStep (t : Retiring σ r) (born : Born σ) (step : ServiceStep σ e σ') :
    Retiring σ' r := by
  cases step with
  | newService =>
    refine t.keep ?_ ?_ id (fun _ => Iff.rfl) (fun _ => id) (fun _ => id) (fun _ => id) <;>
    · by_cases same : r = σ.nextRef
      · subst same
        simp [State.newService, born.srv σ.nextRef le_rfl]
      · simp [State.newService, Function.update_of_ne same]
  | onInit | onInitReturn => exact t.modService _ rfl rfl
  | nameService =>
    exact t.keep rfl rfl id (fun _ => Iff.rfl) (fun _ => id) (fun _ => id) (fun _ => id)

theorem wakeStep (t : Retiring σ r) (step : WakeStep σ e σ') : Retiring σ' r := by
  cases step with
  | wakeTest h | wakeLength h => exact t.setCall (by rw [h]; rfl) (by split <;> rfl)
  | wakeCount h | wakeNone h => exact t.setCall (by rw [h]; rfl) rfl
  | wakeSignal h waits =>
    refine (t.setWorker (fun r hr => ?_) (by simp)).setCall ?_ rfl
    · simp [waits, WorkerPc.untested] at hr
    · simp [h, CallPc.schedules]

theorem take (t : Retiring σ r) {w : Fin n} {r' : ServiceRef} {rest : List ServiceRef}
    (h : σ.worker w = .popGlobal) (queue : σ.globalQueue = r' :: rest) :
    Retiring ({ σ with globalQueue := rest }.setWorker w (.readLength r')) r := by
  have other : ∀ w', (σ.worker w').untested = some r → w' ≠ w := by
    rintro w' hw' rfl
    simp [h, WorkerPc.untested] at hw'
  refine ⟨t.marked, fun k hk w' hw' => ?_, fun marked live => ?_⟩
  · by_cases same : w' = w
    · subst same
      simp at hw'
    · rw [State.setWorker_worker_other _ _ _ same] at hw'
      exact t.settled k hk w' hw'
  · rcases t.reaches marked live with call | mem | ⟨w', hw'⟩
    · exact .inl call
    · rw [queue] at mem
      rcases List.mem_cons.mp mem with rfl | mem
      · exact .inr (.inr ⟨w, by simp [WorkerPc.untested]⟩)
      · exact .inr (.inl mem)
    · exact .inr (.inr ⟨w', by rwa [State.setWorker_worker_other _ _ _ (other w' hw')]⟩)

theorem sleepStep (t : Retiring σ r) (step : SleepStep σ e σ') : Retiring σ' r := by
  have fields : ∀ mtx count, Retiring { σ with sleepMtx := mtx, sleepCount := count } r :=
    fun _ _ => t.keep rfl rfl id (fun _ => Iff.rfl) (fun _ => id) (fun _ => id) (fun _ => id)
  cases step with
  | take h queue => exact t.take h queue
  | takeNone h | spurious h =>
    exact t.setWorker (fun r hr => by simp [h, WorkerPc.untested] at hr) (by simp)
  | readExit h =>
    exact t.setWorker (fun r hr => by simp [h, WorkerPc.untested] at hr) (by split <;> simp)
  | lockSleep h | condWait h | resume h =>
    exact (fields _ _).setWorker (fun r hr => by simp [h, WorkerPc.untested] at hr) (by simp)

/-- A worker that finds `isExiting` false stands before `FinishDispatch` of a service that no call
has marked. -/
theorem testLive (t : Retiring σ r) {w : Fin n} {r' : ServiceRef}
    (h : σ.worker w = .testExiting r') (live : (σ.srv r').isExiting = false) :
    Retiring (σ.setWorker w (.finish r')) r := by
  by_cases same : r = r'
  · subst same
    have unmarked : (σ.srv r).isExiting ≠ true := by simp [live]
    refine ⟨t.marked, fun k hk => ?_, fun marked => absurd marked unmarked⟩
    exact absurd (t.marked k (by rw [show σ.call k = _ from hk]; rfl)) unmarked
  · refine t.keep rfl rfl id (fun _ => Iff.rfl) (fun _ => id) ?_ ?_ <;>
    · intro w' hw'
      by_cases worker : w' = w
      · subst worker
        simp_all [WorkerPc.untested]
      · rwa [State.setWorker_worker_other _ _ _ worker] at *

theorem testExiting (t : Retiring σ r) {w : Fin n} {r' : ServiceRef}
    (h : σ.worker w = .testExiting r') :
    Retiring ((σ.modService r' fun s => { s with exited := true }).setWorker w (.onExit r')) r := by
  have finish : ∀ w', (Function.update σ.worker w (.onExit r') w') = .finish r →
      σ.worker w' = .finish r := by
    intro w' hw'
    by_cases worker : w' = w
    · subst worker
      simp at hw'
    · rwa [Function.update_of_ne worker] at hw'
  by_cases same : r = r'
  · subst same
    refine ⟨fun k hk => ?_, fun k hk w' hw' => t.settled k hk w' (finish w' hw'), fun _ live => ?_⟩
    · simpa using t.marked k hk
    · simp at live
  · refine t.keep ?_ ?_ id (fun _ => Iff.rfl) (fun _ => id) (fun w' hw' => ?_) finish
    · simp [State.modService_srv_other _ _ _ same]
    · simp [State.modService_srv_other _ _ _ same]
    · by_cases worker : w' = w
      · subst worker
        simp_all [WorkerPc.untested]
      · rwa [State.setWorker_worker_other _ _ _ worker]

theorem turnStep (t : Retiring σ r) (token : ∀ r, Token σ r) (step : TurnStep σ e σ') :
    Retiring σ' r := by
  have tested : ∀ {τ : State n} {w pc}, τ.worker w = pc → pc.untested = none →
      ∀ r pc', (τ.worker w).untested = some r → WorkerPc.untested pc' = some r := by
    intro τ w pc h none r pc' hr
    rw [h, none] at hr
    contradiction
  cases step with
  | readLength h | processDone h | onMsgReturn h =>
    exact t.setWorker (fun r hr => by rw [h] at hr; exact hr) (by simp)
  | processPop h | processNone h | readOverload h =>
    exact (t.modQueue _ _).setWorker (fun r hr => by
      rw [State.modQueue, State.modService_worker, h] at hr; exact hr) (by simp)
  | testLive h live => exact t.testLive h live
  | testExiting h => exact t.testExiting h
  | @testExited w r' h _ again =>
    rw [(token r').not_exited (by rw [h]; rfl) (by rw [h]; rfl)] at again
    contradiction
  | finish h =>
    exact (t.finishDispatch _).setWorker (fun r => tested h rfl r _) (by simp)
  | onExitReturn h | clearDone h =>
    exact (t.modQueue _ _).setWorker (fun r => tested h rfl r _) (by simp)
  | clearDrop h => exact t.modQueue _ _
  | clearSend h _ _ idle =>
    refine Retiring.setWorker (Retiring.setCall (t.modQueue _ _) ?_ rfl) (fun r => tested h rfl r _)
      (by simp)
    show (σ.call _).schedules = none
    rw [idle]; rfl
  | clearResume h => exact t.setWorker (fun r => tested h rfl r _) (by simp)

theorem mainStep (t : Retiring σ r) (step : MainStep σ e σ') : Retiring σ' r := by
  have fields : ∀ flag main, Retiring { σ with exitFlag := flag, main := main } r :=
    fun _ _ => t.keep rfl rfl id (fun _ => Iff.rfl) (fun _ => id) (fun _ => id) (fun _ => id)
  cases step with
  | killAll | killReturn | setExit => exact fields _ _
  | @killNext id ids k _ idle =>
    exact (fields σ.exitFlag (.killCall ids k)).setCall (by rw [idle]; rfl) rfl
  | wakeAll =>
    refine t.keep rfl rfl id (fun _ => Iff.rfl) (fun _ => id) (fun w hw => ?_) (fun w hw => ?_)
    · have awake : σ.worker w ≠ .blocked := fun blocked => by
        simp [blocked, WorkerPc.untested] at hw
      simpa [State.broadcast, awake] using hw
    · simp only [State.broadcast] at hw
      split at hw
      · contradiction
      · exact hw

theorem step (t : Retiring σ r) (born : Born σ) (token : ∀ r, Token σ r)
    (step : Step σ e σ') (settled : ReadsSettled σ e) : Retiring σ' r := by
  cases step with
  | service h => exact t.serviceStep born h
  | call h => exact t.callStep (token r) h settled
  | wake h => exact t.wakeStep h
  | sleep h => exact t.sleepStep h
  | turn h => exact t.turnStep token h
  | main h => exact t.mainStep h

theorem run {tr : List (Event n)} (run : ((node n).restrict ReadsSettled).Run σ tr)
    (r : ServiceRef) : Retiring σ r :=
  run.invariant (P := fun σ _ => Retiring σ r) (fun _ h => h ▸ initial r)
    fun _ _ _ _ run t step =>
      t.step (Born.run run.of_restrict) (Token.run run.of_restrict) step.1 step.2

end Retiring

/-- In every run in which no call reads `inGlobal` of a service between a worker's test of
`isExiting` and its `FinishDispatch`, every marked service reaches its exit path. -/
theorem exitGuaranteed_of_readsSettled {tr : List (Event n)}
    (run : ((node n).restrict ReadsSettled).Run σ tr) (r : ServiceRef) : ExitGuaranteed σ r := by
  intro marked live unkilled
  rcases (Retiring.run run r).reaches marked live with ⟨k, hk⟩ | reaches
  · exact absurd (CallPc.kills_of_schedules hk) (unkilled k)
  · exact reaches

/-- A service that is killed while it is idle is put into the global queue. -/
theorem exitGuaranteed_idle : ∃ (σ : State 1) (tr : List (Event 1)),
    ((node 1).restrict ReadsSettled).Run σ tr ∧ (σ.srv 0).isExiting = true ∧
      (σ.srv 0).exited = false ∧ (∀ k, (σ.call k).kills ≠ some 0) ∧
      (0 ∈ σ.globalQueue ∨ ∃ w, (σ.worker w).untested = some 0) := by
  have quiet : ∀ {σ : State 1} {e : Event 1}, (∀ k r, e ≠ .readInGlobal k r) → ReadsSettled σ e :=
    fun no k r eq => absurd eq (no k r)
  have h0 : ((node 1).restrict ReadsSettled).Run _ _ := .init rfl
  have h1 := h0.step ⟨.service (.newService _), quiet (by simp)⟩
  have h2 := h1.step ⟨.service (.onInit (r := 0) rfl), quiet (by simp)⟩
  have h3 := h2.step ⟨.service (.onInitReturn (r := 0) rfl), quiet (by simp)⟩
  have h4 := h3.step ⟨.call (.kill (k := 0) 1 rfl), quiet (by simp)⟩
  have h5 := h4.step ⟨.call (.killFound (k := 0) (r := 0) rfl rfl), quiet (by simp)⟩
  have h6 := h5.step ⟨.call (.killErase (k := 0) rfl), quiet (by simp)⟩
  have h7 := h6.step ⟨.call (.killName (k := 0) rfl), quiet (by simp)⟩
  have h8 := h7.step ⟨.call (.killMark (k := 0) rfl), quiet (by simp)⟩
  have h9 := h8.step ⟨.call (.killRead (k := 0) (r := 0) rfl), by rintro k r - w ⟨⟩⟩
  have h10 := h9.step ⟨.call (.killEnter (k := 0) (r := 0) rfl), quiet (by simp)⟩
  have h11 := h10.step ⟨.wake (.wakeTest (k := 0) rfl), quiet (by simp)⟩
  refine ⟨_, _, h11, rfl, rfl, ?_, exitGuaranteed_of_readsSettled h11 0 rfl rfl ?_⟩ <;>
    exact CallPc.not_kills_of_idle (by rintro (_ | k) <;> rfl)

/-- `KillService` marks the service after the worker's test and reads `inGlobal` before its
`FinishDispatch`, which finds no message: `OnExit` is skipped. -/
theorem not_exitGuaranteed_finish :
    ¬ ∀ (σ : State 1) (tr : List (Event 1)), (node 1).Run σ tr → ∀ r, ExitGuaranteed σ r := by
  intro claim
  have h0 : (node 1).Run _ _ := .init rfl
  have h1 := h0.step (.service (.newService _))
  have h2 := h1.step (.service (.onInit (r := 0) rfl))
  have h3 := h2.step (.service (.onInitReturn (r := 0) rfl))
  have h4 := h3.step (.call (.send (k := 0) 1 (request 1) rfl))
  have h5 := h4.step (.call (.sendFound (k := 0) (r := 0) rfl rfl))
  have h6 := h5.step (.call (.sendPush (k := 0) rfl rfl))
  have h7 := h6.step (.call (.sendEnter (k := 0) rfl))
  have h8 := h7.step (.wake (.wakeTest (k := 0) rfl))
  have h9 := h8.step (.sleep (.take (w := 0) (r := 0) rfl rfl))
  have h10 := h9.step (.turn (.readLength (w := 0) rfl rfl))
  have h11 := h10.step (.turn (.processPop (w := 0) (i := 0) rfl rfl rfl))
  have h12 := h11.step (.turn (.readOverload (w := 0) rfl rfl))
  have h13 := h12.step (.turn (.onMsgReturn (w := 0) rfl))
  have h14 := h13.step (.turn (.processDone (w := 0) rfl))
  have h15 := h14.step (.turn (.testLive (w := 0) rfl rfl))
  have h16 := h15.step (.call (.kill (k := 0) 1 rfl))
  have h17 := h16.step (.call (.killFound (k := 0) (r := 0) rfl rfl))
  have h18 := h17.step (.call (.killErase (k := 0) rfl))
  have h19 := h18.step (.call (.killName (k := 0) rfl))
  have h20 := h19.step (.call (.killMark (k := 0) rfl))
  have h21 := h20.step (.call (.killRead (k := 0) (r := 0) rfl))
  have h22 := h21.step (.turn (.finish (w := 0) rfl rfl))
  refine absurd (claim _ _ h22 0 rfl rfl ?_) ?_
  · exact CallPc.not_kills_of_idle (by rintro (_ | k) <;> rfl)
  · rintro (mem | ⟨⟨_ | w, lt⟩, hw⟩)
    · contradiction
    · contradiction
    · omega

end Starnet.Core
