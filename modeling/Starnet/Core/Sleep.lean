import Starnet.Core.Step

/-! Sleep and wake-up of the workers. A worker that finds the global queue empty tests `IsExit` and
enters `WorkerWait` without a lock that covers both, and `CheckAndWeakUp` reads `sleepCount` without
the mutex. A sender that runs `CheckAndWeakUp` while every worker is on its way to sleep may find
nobody to wake, and the broadcast of `WakeUpAll` misses a worker between its test of `IsExit` and
the mutex. -/

namespace Starnet.Core

open Transition

variable {n : Nat} {σ σ' : State n} {e : Event n}

/-- The call is inside `CheckAndWeakUp`. -/
def CallPc.waking : CallPc → Bool
  | wakeTest | wakeCount | wakeLength _ | wakeSignal => true
  | _ => false

/-- The worker is counted in `sleepCount`. -/
def WorkerPc.counted : WorkerPc → Bool
  | condWait | blocked | woken => true
  | _ => false

/-- The worker is not blocked in `pthread_cond_wait` and not on the way there from an empty global
queue. -/
def WorkerPc.awake : WorkerPc → Bool
  | readExit | lockSleep | condWait | blocked => false
  | _ => true

/-- Outside `CheckAndWeakUp` and `WakeUpAll` the workers are not all blocked while a service is in
the global queue, and none is blocked after `WakeUpAll`. -/
def NoLostWakeUp (σ : State n) : Prop :=
  ((∀ k, (σ.call k).waking = false) → σ.main ≠ .wakeAll → (∀ w, σ.worker w = .blocked) →
    σ.globalQueue = []) ∧
  (σ.main = .join → ∀ w, σ.worker w ≠ .blocked)

/-- A sender that enters `CheckAndWeakUp` finds a worker awake, or a worker blocked and no more
workers missing from `sleepCount` than there are services in the global queue. The broadcast finds
no worker between its test of `IsExit` and the mutex. -/
def WakesInTime (σ : State n) (e : Event n) : Prop :=
  (∀ k, e = .readSleepCount k → (∃ w, (σ.worker w).awake = true) ∨
    (∃ w, σ.worker w = .blocked) ∧ n - σ.sleepCount ≤ σ.globalQueue.length) ∧
  (e = .broadcast → ∀ w, σ.worker w ≠ .lockSleep)

/-! ### The sleep counter and the mutex -/

/-- `sleepCount` counts the workers inside `WorkerWait`, and a worker that has counted itself and
has not reached `pthread_cond_wait` holds the mutex. -/
structure Sleeping (σ : State n) : Prop where
  count : σ.sleepCount = tally WorkerPc.counted σ.worker
  mutex : ∀ w, σ.worker w = .condWait → σ.sleepMtx = some w

namespace Sleeping

theorem initial : Sleeping (State.initial n) := by
  constructor
  · exact (tally_eq_zero.mpr fun _ => rfl).symm
  · simp [State.initial]

theorem keep (s : Sleeping σ) (worker : σ'.worker = σ.worker)
    (count : σ'.sleepCount = σ.sleepCount) (mutex : σ'.sleepMtx = σ.sleepMtx) : Sleeping σ' := by
  constructor
  · rw [count, worker]
    exact s.count
  · rw [mutex, worker]
    exact s.mutex

/-- A step of a worker that neither enters nor leaves `WorkerWait`. -/
theorem setWorker (s : Sleeping σ) {w : Fin n} {pc : WorkerPc}
    (worker : σ'.worker = Function.update σ.worker w pc) (count : σ'.sleepCount = σ.sleepCount)
    (mutex : σ'.sleepMtx = σ.sleepMtx) (counted : pc.counted = (σ.worker w).counted)
    (moves : pc ≠ .condWait) : Sleeping σ' := by
  constructor
  · rw [count, worker, tally_update_same counted]
    exact s.count
  · intro w' hw'
    rw [worker] at hw'
    rw [mutex]
    by_cases same : w' = w
    · subst same
      rw [Function.update_self] at hw'
      exact absurd hw' moves
    · rw [Function.update_of_ne same] at hw'
      exact s.mutex w' hw'

theorem sleepStep (s : Sleeping σ) (step : SleepStep σ e σ') : Sleeping σ' := by
  cases step with
  | take h | takeNone h | spurious h =>
    exact s.setWorker rfl rfl rfl (by rw [h]; rfl) (by simp)
  | readExit h => exact s.setWorker rfl rfl rfl (by rw [h]; split <;> rfl) (by split <;> simp)
  | @lockSleep w h free =>
    constructor
    · have moved := tally_update WorkerPc.counted σ.worker w .condWait
      simp only [h, WorkerPc.counted, if_true, Bool.false_eq_true, if_false] at moved
      show σ.sleepCount + 1 = tally _ (Function.update σ.worker w .condWait)
      rw [s.count]
      omega
    · intro w' hw'
      by_cases same : w' = w
      · rw [same]
        rfl
      · rw [State.setWorker_worker_other _ _ _ same] at hw'
        have held := s.mutex w' hw'
        rw [free] at held
        contradiction
  | @condWait w h =>
    constructor
    · show σ.sleepCount = tally _ (Function.update σ.worker w .blocked)
      rw [s.count, tally_update_same (by rw [h]; rfl)]
    · intro w' hw'
      by_cases same : w' = w
      · subst same
        simp at hw'
      · rw [State.setWorker_worker_other _ _ _ same] at hw'
        have other := (s.mutex w' hw').symm.trans (s.mutex w h)
        exact absurd (Option.some.inj other) same
  | @resume w h free =>
    constructor
    · have moved := tally_update WorkerPc.counted σ.worker w .popGlobal
      simp only [h, WorkerPc.counted, if_true, Bool.false_eq_true, if_false] at moved
      show σ.sleepCount - 1 = tally _ (Function.update σ.worker w .popGlobal)
      rw [s.count]
      omega
    · intro w' hw'
      by_cases same : w' = w
      · subst same
        simp at hw'
      · rw [State.setWorker_worker_other _ _ _ same] at hw'
        exact s.mutex w' hw'

theorem turnStep (s : Sleeping σ) (step : TurnStep σ e σ') : Sleeping σ' := by
  cases step with
  | clearDrop => exact s.keep rfl rfl rfl
  | readLength h | processDone h | processPop h | processNone h | readOverload h | onMsgReturn h
  | testLive h | testExiting h | testExited h | finish h | onExitReturn h | clearSend h
  | clearResume h | clearDone h => exact s.setWorker rfl rfl rfl (by rw [h]; rfl) (by simp)

theorem step (s : Sleeping σ) (step : Step σ e σ') : Sleeping σ' := by
  cases step with
  | service h => cases h <;> exact s.keep rfl rfl rfl
  | call h => cases h <;> exact s.keep rfl rfl rfl
  | wake h =>
    cases h with
    | wakeSignal _ waits => exact s.setWorker rfl rfl rfl (by rw [waits]; rfl) (by simp)
    | _ => exact s.keep rfl rfl rfl
  | sleep h => exact s.sleepStep h
  | turn h => exact s.turnStep h
  | main h =>
    cases h with
    | killAll | killNext | killReturn | setExit => exact s.keep rfl rfl rfl
    | wakeAll =>
      constructor
      · refine s.count.trans (tally_congr fun w => ?_)
        simp only [State.broadcast]
        split
        · rename_i waits
          rw [waits]
          rfl
        · rfl
      · intro w hw
        simp only [State.broadcast] at hw
        split at hw
        · contradiction
        · exact s.mutex w hw

theorem run {tr : List (Event n)} (run : (node n).Run σ tr) : Sleeping σ :=
  run.stateInvariant (fun _ h => h ▸ initial) fun _ _ _ s step => s.step step

theorem count_pos (s : Sleeping σ) {w : Fin n} (h : σ.worker w = .blocked) :
    0 < σ.sleepCount := by
  rw [s.count]
  exact tally_pos (i := w) (by rw [h]; rfl)

end Sleeping

/-! ### Senders -/

/-- Call `k` will signal a waiter. -/
def Signals (σ : State n) (k : Nat) : Prop :=
  σ.call k = .wakeCount ∨
    (∃ sleepCount, σ.call k = .wakeLength sleepCount ∧ n - sleepCount ≤ σ.globalQueue.length) ∨
    σ.call k = .wakeSignal

/-- A worker is blocked, few enough are missing from `sleepCount`, and a call will signal. -/
structure Signalled (σ : State n) : Prop where
  blocked : ∃ w, σ.worker w = .blocked
  missing : n - σ.sleepCount ≤ σ.globalQueue.length
  signals : ∃ k, Signals σ k

/-- While a service is in the global queue a worker is awake, or a sender enters `CheckAndWeakUp`,
or it will wake a worker. -/
def Alert (σ : State n) : Prop :=
  σ.globalQueue ≠ [] →
    (∃ w, (σ.worker w).awake = true) ∨ (∃ k, σ.call k = .wakeTest) ∨ Signalled σ

theorem Signals.waking {k : Nat} (h : Signals σ k) : (σ.call k).waking = true := by
  rcases h with h | ⟨_, h, _⟩ | h <;> rw [h] <;> rfl

namespace Alert

/-- A step after which worker `w` is awake. -/
theorem of_awake {w : Fin n} (h : (σ.worker w).awake = true) : Alert σ :=
  fun _ => .inl ⟨w, h⟩

/-- A step of a call outside `CheckAndWeakUp`. -/
theorem keep_call (a : Alert σ) (queue : σ'.globalQueue = σ.globalQueue)
    (worker : σ'.worker = σ.worker) (count : σ'.sleepCount = σ.sleepCount)
    (call : ∀ k, (σ.call k).waking = true → σ'.call k = σ.call k) : Alert σ' := by
  intro pending
  rw [queue] at pending
  rcases a pending with awake | ⟨k, hk⟩ | ⟨blocked, missing, k, hk⟩
  · exact .inl (by rwa [worker])
  · exact .inr (.inl ⟨k, by rw [call k (by rw [hk]; rfl), hk]⟩)
  · refine .inr (.inr ⟨by rwa [worker], by rwa [queue, count], k, ?_⟩)
    simp only [Signals, queue, call k hk.waking]
    exact hk

theorem keep (a : Alert σ) (queue : σ'.globalQueue = σ.globalQueue)
    (worker : σ'.worker = σ.worker) (count : σ'.sleepCount = σ.sleepCount)
    (call : σ'.call = σ.call) : Alert σ' :=
  a.keep_call queue worker count fun k _ => by rw [call]

theorem keep_setCall (a : Alert σ) {k : Nat} {pc : CallPc} (queue : σ'.globalQueue = σ.globalQueue)
    (worker : σ'.worker = σ.worker) (count : σ'.sleepCount = σ.sleepCount)
    (call : σ'.call = Function.update σ.call k pc) (outside : (σ.call k).waking = false) :
    Alert σ' := by
  refine a.keep_call queue worker count fun k' hk' => ?_
  have ne : k' ≠ k := by
    rintro rfl
    rw [outside] at hk'
    contradiction
  rw [call, Function.update_of_ne ne]

/-- A step of a worker on its way to sleep. -/
theorem doze (a : Alert σ) {w : Fin n} {pc : WorkerPc} (queue : σ'.globalQueue = σ.globalQueue)
    (worker : σ'.worker = Function.update σ.worker w pc) (count : σ.sleepCount ≤ σ'.sleepCount)
    (call : σ'.call = σ.call) (before : (σ.worker w).awake = false)
    (moves : σ.worker w ≠ .blocked) : Alert σ' := by
  intro pending
  rw [queue] at pending
  rcases a pending with ⟨w', hw'⟩ | calls | ⟨⟨w', hw'⟩, missing, k, hk⟩
  · have ne : w' ≠ w := by
      rintro rfl
      rw [before] at hw'
      contradiction
    exact .inl ⟨w', by rwa [worker, Function.update_of_ne ne]⟩
  · exact .inr (.inl (by rwa [call]))
  · have ne : w' ≠ w := by
      rintro rfl
      exact moves hw'
    refine .inr (.inr ⟨⟨w', by rwa [worker, Function.update_of_ne ne]⟩, ?_, k, ?_⟩)
    · rw [queue]
      omega
    · simp only [Signals, queue, call]
      exact hk

theorem enter (a : Alert σ) {k : Nat} {r : ServiceRef} (outside : (σ.call k).waking = false) :
    Alert ((σ.tryEnterGlobal r).setCall k (σ.afterEnter r)) := by
  cases inside : (σ.srv r).mq.inGlobal with
  | true =>
    rw [State.tryEnterGlobal_inside inside]
    exact a.keep_setCall rfl rfl rfl rfl outside
  | false =>
    rw [State.afterEnter_outside inside]
    exact fun _ => .inr (.inl ⟨k, by simp⟩)

/-- The first read of `sleepCount`, made in time: it is positive when no worker is awake. -/
theorem test (s : Sleeping σ) {k : Nat}
    (inTime : (∃ w, (σ.worker w).awake = true) ∨
      (∃ w, σ.worker w = .blocked) ∧ n - σ.sleepCount ≤ σ.globalQueue.length) :
    Alert (σ.setCall k (if σ.sleepCount = 0 then .idle else .wakeCount)) := by
  intro _
  rcases inTime with awake | ⟨⟨w, hw⟩, missing⟩
  · exact .inl awake
  · have pos := s.count_pos hw
    refine .inr (.inr ⟨⟨w, hw⟩, missing, k, .inl ?_⟩)
    rw [if_neg (by omega), State.setCall_call_same]

/-- Another call of `CheckAndWeakUp` moves, or call `k`, which then still signals. -/
theorem wakeMove (a : Alert σ) {k : Nat} {pc : CallPc} (h : σ.call k ≠ .wakeTest)
    (moves : Signals σ k → n - σ.sleepCount ≤ σ.globalQueue.length → Signals (σ.setCall k pc) k) :
    Alert (σ.setCall k pc) := by
  intro pending
  rcases a pending with awake | ⟨k', hk'⟩ | ⟨blocked, missing, k', hk'⟩
  · exact .inl awake
  · have ne : k' ≠ k := by
      rintro rfl
      exact h hk'
    exact .inr (.inl ⟨k', by rwa [State.setCall_call_other _ _ _ ne]⟩)
  · refine .inr (.inr ⟨blocked, missing, ?_⟩)
    by_cases same : k' = k
    · subst same
      exact ⟨k', moves hk' missing⟩
    · refine ⟨k', ?_⟩
      simp only [Signals, State.setCall_call_other _ _ _ same]
      exact hk'

theorem wakeStep (a : Alert σ) (s : Sleeping σ) (step : WakeStep σ e σ')
    (inTime : WakesInTime σ e) : Alert σ' := by
  cases step with
  | wakeTest => exact test s (inTime.1 _ rfl)
  | @wakeCount k h =>
    refine a.wakeMove (by simp [h]) fun _ missing => .inr (.inl ⟨σ.sleepCount, ?_, missing⟩)
    exact State.setCall_call_same ..
  | @wakeLength k sleepCount h =>
    refine a.wakeMove (by simp [h]) fun signals _ => .inr (.inr ?_)
    rw [State.setCall_call_same]
    simp only [Signals, h, reduceCtorEq, false_or, or_false] at signals
    obtain ⟨_, ⟨⟩, missing⟩ := signals
    exact if_pos missing
  | @wakeSignal k w => exact of_awake (w := w) (by simp [WorkerPc.awake])
  | @wakeNone k h none =>
    intro pending
    rcases a pending with awake | ⟨k', hk'⟩ | signalled
    · exact .inl awake
    · have ne : k' ≠ k := by
        rintro rfl
        rw [h] at hk'
        contradiction
      exact .inr (.inl ⟨k', by rwa [State.setCall_call_other _ _ _ ne]⟩)
    · obtain ⟨w, hw⟩ := signalled.blocked
      exact absurd hw (none w)

theorem sleepStep (a : Alert σ) (step : SleepStep σ e σ') : Alert σ' := by
  cases step with
  | @take w | @spurious w | @resume w => exact of_awake (w := w) (by simp [WorkerPc.awake])
  | takeNone _ queue => exact fun pending => absurd queue pending
  | readExit h | lockSleep h | condWait h =>
    exact a.doze rfl rfl (by simp) rfl (by rw [h]; rfl) (by simp [h])

theorem turnStep (step : TurnStep σ e σ') : Alert σ' := by
  cases step with
  | @clearDrop w _ _ _ h => exact of_awake (w := w) (by simp [State.modQueue, h, WorkerPc.awake])
  | @readLength w | @processDone w | @processPop w | @processNone w | @readOverload w
  | @onMsgReturn w | @testLive w | @testExiting w | @testExited w | @finish w | @onExitReturn w
  | @clearSend w | @clearResume w | @clearDone w =>
    exact of_awake (w := w) (by simp [WorkerPc.awake])

theorem step (a : Alert σ) (s : Sleeping σ) (step : Step σ e σ') (inTime : WakesInTime σ e) :
    Alert σ' := by
  cases step with
  | service h => cases h <;> exact a.keep rfl rfl rfl rfl
  | call h =>
    cases h with
    | sendEnter h | killEnter h => exact a.enter (by rw [h]; rfl)
    | send _ _ h | sendFound h | sendMissed h | sendPush h | kill _ h | killFound h | killMissed h
    | killErase h | killName h | killMark h | killRead h =>
      exact a.keep_setCall rfl rfl rfl rfl (by rw [h]; rfl)
  | wake h => exact a.wakeStep s h inTime
  | sleep h => exact a.sleepStep h
  | turn h => exact turnStep h
  | main h =>
    cases h with
    | killAll | killReturn | setExit => exact a.keep rfl rfl rfl rfl
    | killNext _ idle => exact a.keep_setCall rfl rfl rfl rfl (by rw [idle]; rfl)
    | wakeAll =>
      intro pending
      rcases a pending with ⟨w, hw⟩ | calls | ⟨⟨w, hw⟩, -, -⟩
      · have ne : σ.worker w ≠ .blocked := fun blocked => by
          rw [blocked] at hw
          contradiction
        exact .inl ⟨w, by simpa [State.broadcast, ne] using hw⟩
      · exact .inr (.inl calls)
      · exact .inl ⟨w, by simp [State.broadcast, hw, WorkerPc.awake]⟩

theorem run {tr : List (Event n)} (run : ((node n).restrict WakesInTime).Run σ tr) : Alert σ :=
  run.invariant (P := fun σ _ => Alert σ) (fun _ h => h ▸ fun pending => absurd rfl pending)
    fun _ _ _ _ run a step => a.step (Sleeping.run run.of_restrict) step.1 step.2

end Alert

/-! ### Shutdown -/

/-- The worker has read `IsExit` as false and is not yet woken again. -/
def WorkerPc.missed : WorkerPc → Bool
  | lockSleep | condWait | blocked => true
  | _ => false

/-- `IsExit` is true from `SetExit` on, and after `WakeUpAll` no worker waits or is about to. -/
structure Shutdown (σ : State n) : Prop where
  exitFlag : σ.main = .wakeAll ∨ σ.main = .join → σ.exitFlag = true
  joined : σ.main = .join → ∀ w, (σ.worker w).missed = false

namespace Shutdown

theorem keep (s : Shutdown σ) (main : σ'.main = σ.main) (flag : σ'.exitFlag = σ.exitFlag)
    (worker : σ'.worker = σ.worker) : Shutdown σ' := by
  constructor
  · rw [main, flag]
    exact s.exitFlag
  · rw [main, worker]
    exact s.joined

/-- A step of worker `w` that leads towards `pthread_cond_wait` only from there or while `IsExit`
is false. -/
theorem setWorker (s : Shutdown σ) {w : Fin n} {pc : WorkerPc} (main : σ'.main = σ.main)
    (flag : σ'.exitFlag = σ.exitFlag) (worker : σ'.worker = Function.update σ.worker w pc)
    (moves : pc.missed = true → (σ.worker w).missed = true ∨ σ.exitFlag = false) :
    Shutdown σ' := by
  constructor
  · rw [main, flag]
    exact s.exitFlag
  · intro join w'
    rw [main] at join
    rw [worker]
    by_cases same : w' = w
    · subst same
      rw [Function.update_self]
      cases missed : pc.missed with
      | false => rfl
      | true =>
        rcases moves missed with before | live
        · rw [s.joined join w'] at before
          contradiction
        · rw [s.exitFlag (.inr join)] at live
          contradiction
    · rw [Function.update_of_ne same]
      exact s.joined join w'

theorem sleepStep (s : Shutdown σ) (step : SleepStep σ e σ') : Shutdown σ' := by
  cases step with
  | take | takeNone | spurious | resume => exact s.setWorker rfl rfl rfl nofun
  | readExit =>
    refine s.setWorker rfl rfl rfl fun missed => ?_
    cases flag : σ.exitFlag with
    | true => simp [flag, WorkerPc.missed] at missed
    | false => exact .inr rfl
  | lockSleep h | condWait h => exact s.setWorker rfl rfl rfl fun _ => .inl (by rw [h]; rfl)

theorem turnStep (s : Shutdown σ) (step : TurnStep σ e σ') : Shutdown σ' := by
  cases step with
  | clearDrop => exact s.keep rfl rfl rfl
  | _ => exact s.setWorker rfl rfl rfl nofun

/-- `WakeUpAll` takes the mutex, so no worker is between its count and `pthread_cond_wait`. -/
theorem wakeAll (s : Shutdown σ) (sleeping : Sleeping σ) (h : σ.main = .wakeAll)
    (free : σ.sleepMtx = none) (inTime : ∀ w, σ.worker w ≠ .lockSleep) :
    Shutdown { σ.broadcast with main := .join } := by
  refine ⟨fun _ => s.exitFlag (.inl h), fun _ w => ?_⟩
  simp only [State.broadcast]
  split
  · rfl
  · rename_i awake
    cases pc : σ.worker w with
    | lockSleep => exact absurd pc (inTime w)
    | condWait =>
      have held := sleeping.mutex w pc
      rw [free] at held
      contradiction
    | blocked => exact absurd pc awake
    | _ => rfl

theorem step (s : Shutdown σ) (sleeping : Sleeping σ) (step : Step σ e σ')
    (inTime : WakesInTime σ e) : Shutdown σ' := by
  cases step with
  | service h => cases h <;> exact s.keep rfl rfl rfl
  | call h => cases h <;> exact s.keep rfl rfl rfl
  | wake h =>
    cases h with
    | wakeSignal => exact s.setWorker rfl rfl rfl nofun
    | _ => exact s.keep rfl rfl rfl
  | sleep h => exact s.sleepStep h
  | turn h => exact s.turnStep h
  | main h =>
    cases h with
    | killAll | killNext | killReturn => exact ⟨by simp, by simp⟩
    | setExit => exact ⟨fun _ => rfl, by simp⟩
    | wakeAll h free => exact s.wakeAll sleeping h free (inTime.2 rfl)

theorem run {tr : List (Event n)} (run : ((node n).restrict WakesInTime).Run σ tr) :
    Shutdown σ :=
  run.invariant (P := fun σ _ => Shutdown σ)
    (fun _ h => h ▸ ⟨by simp [State.initial], by simp [State.initial]⟩)
    fun _ _ _ _ run s step => s.step (Sleeping.run run.of_restrict) step.1 step.2

end Shutdown

/-- In every run in which senders and the shutdown look for workers in time, no wake-up is lost. -/
theorem noLostWakeUp_of_wakesInTime {tr : List (Event n)}
    (run : ((node n).restrict WakesInTime).Run σ tr) : NoLostWakeUp σ := by
  constructor
  · intro idle _ blocked
    by_contra pending
    rcases Alert.run run pending with ⟨w, hw⟩ | ⟨k, hk⟩ | ⟨-, -, k, hk⟩
    · rw [blocked w] at hw
      contradiction
    · have waking := idle k
      rw [hk] at waking
      contradiction
    · have waking := hk.waking
      rw [idle k] at waking
      contradiction
  · intro join w blocked
    have missed := (Shutdown.run run).joined join w
    rw [blocked] at missed
    contradiction

/-- A worker is blocked and a request wakes it. -/
theorem noLostWakeUp_blocked : ∃ (σ : State 1) (tr : List (Event 1)),
    ((node 1).restrict WakesInTime).Run σ tr ∧ σ.worker 0 = .woken ∧ σ.globalQueue = [0] ∧
      NoLostWakeUp σ := by
  have quiet : ∀ {σ : State 1} {e : Event 1}, (∀ k, e ≠ .readSleepCount k) → e ≠ .broadcast →
      WakesInTime σ e := fun no no' => ⟨fun k eq => absurd eq (no k), fun eq => absurd eq no'⟩
  have h0 : ((node 1).restrict WakesInTime).Run _ _ := .init rfl
  have h1 := h0.step ⟨.service (.newService _), quiet (by simp) (by simp)⟩
  have h2 := h1.step ⟨.service (.onInit (r := 0) rfl), quiet (by simp) (by simp)⟩
  have h3 := h2.step ⟨.service (.onInitReturn (r := 0) rfl), quiet (by simp) (by simp)⟩
  have h4 := h3.step ⟨.sleep (.takeNone (w := 0) rfl rfl), quiet (by simp) (by simp)⟩
  have h5 := h4.step ⟨.sleep (.readExit (w := 0) rfl), quiet (by simp) (by simp)⟩
  have h6 := h5.step ⟨.sleep (.lockSleep (w := 0) rfl rfl), quiet (by simp) (by simp)⟩
  have h7 := h6.step ⟨.sleep (.condWait (w := 0) rfl), quiet (by simp) (by simp)⟩
  have h8 := h7.step ⟨.call (.send (k := 0) 1 (request 1) rfl), quiet (by simp) (by simp)⟩
  have h9 := h8.step ⟨.call (.sendFound (k := 0) (r := 0) rfl rfl), quiet (by simp) (by simp)⟩
  have h10 := h9.step ⟨.call (.sendPush (k := 0) rfl rfl), quiet (by simp) (by simp)⟩
  have h11 := h10.step ⟨.call (.sendEnter (k := 0) rfl), quiet (by simp) (by simp)⟩
  have h12 := h11.step ⟨.wake (.wakeTest (k := 0) rfl),
    fun _ _ => .inr ⟨⟨0, rfl⟩, by decide⟩, by simp⟩
  have h13 := h12.step ⟨.wake (.wakeCount (k := 0) rfl), quiet (by simp) (by simp)⟩
  have h14 := h13.step ⟨.wake (@WakeStep.wakeLength _ _ 0 1 rfl),
    quiet (by simp) (by simp)⟩
  have h15 := h14.step ⟨.wake (.wakeSignal (k := 0) (w := 0) rfl rfl),
    quiet (by simp) (by simp)⟩
  exact ⟨_, _, h15, rfl, rfl, noLostWakeUp_of_wakesInTime h15⟩

/-- A request arrives between the worker's look at the empty global queue and its count in
`sleepCount`: the worker sleeps while the service is in the global queue. -/
theorem not_noLostWakeUp_send :
    ¬ ∀ (σ : State 1) (tr : List (Event 1)), (node 1).Run σ tr → NoLostWakeUp σ := by
  intro claim
  have h0 : (node 1).Run _ _ := .init rfl
  have h1 := h0.step (.service (.newService _))
  have h2 := h1.step (.service (.onInit (r := 0) rfl))
  have h3 := h2.step (.service (.onInitReturn (r := 0) rfl))
  have h4 := h3.step (.sleep (.takeNone (w := 0) rfl rfl))
  have h5 := h4.step (.call (.send (k := 0) 1 (request 1) rfl))
  have h6 := h5.step (.call (.sendFound (k := 0) (r := 0) rfl rfl))
  have h7 := h6.step (.call (.sendPush (k := 0) rfl rfl))
  have h8 := h7.step (.call (.sendEnter (k := 0) rfl))
  have h9 := h8.step (.wake (.wakeTest (k := 0) rfl))
  have h10 := h9.step (.sleep (.readExit (w := 0) rfl))
  have h11 := h10.step (.sleep (.lockSleep (w := 0) rfl rfl))
  have h12 := h11.step (.sleep (.condWait (w := 0) rfl))
  refine absurd ((claim _ _ h12).1 ?_ ?_ fun w => ?_) (List.cons_ne_nil 0 [])
  · rintro (_ | k) <;> rfl
  · exact nofun
  · rw [Subsingleton.elim w 0]
    rfl

/-- The broadcast comes between the worker's test of `IsExit` and its `pthread_cond_wait`: the
worker still waits after `WakeUpAll`. -/
theorem blocked_after_wakeUpAll : ∃ (σ : State 1) (tr : List (Event 1)),
    (node 1).Run σ tr ∧ σ.main = .join ∧ σ.worker 0 = .blocked := by
  have h0 : (node 1).Run _ _ := .init rfl
  have h1 := h0.step (.sleep (.takeNone (w := 0) rfl rfl))
  have h2 := h1.step (.sleep (.readExit (w := 0) rfl))
  have h3 := h2.step (.main (@MainStep.killAll _ _ [] rfl (List.Perm.refl _)))
  have h4 := h3.step (.main (.setExit rfl))
  have h5 := h4.step (.main (.wakeAll rfl rfl))
  have h6 := h5.step (.sleep (.lockSleep (w := 0) rfl rfl))
  have h7 := h6.step (.sleep (.condWait (w := 0) rfl))
  exact ⟨_, _, h7, rfl, rfl⟩

end Starnet.Core
