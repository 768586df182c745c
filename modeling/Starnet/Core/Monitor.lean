import Starnet.Lib.Transition

/-! The monitor of a worker. The worker counts its turns in `version`, and the monitor thread looks at
it periodically. Every access to a field is atomic, and the accesses of the two threads come in any
order. A worker has a `StarnetMonitor` of its own, so one of them is modelled. -/

namespace Starnet.Monitor

open Transition

/-- `StarnetMonitor`. -/
structure StarnetMonitor where
  version : UInt32 := 0
  checkVersion : UInt32 := 0
  source : UInt32 := 0
  destination : UInt32 := 0
  session : UInt32 := 0

/-- Where the worker is in its loop. -/
inductive Worker
  | idle
  -- `starnet_monitor_trigger`
  | sourceStored (destination session : UInt32)
  | destinationStored (session : UInt32)
  | sessionStored
  -- `ProcessMsgs`
  | turn
  -- `starnet_monitor_check`
  | versionLoaded (v : UInt32)
  | differ (v : UInt32)
  | clearSource
  | clearDestination
  | clearSession

/-- Where the monitor thread is in its round for this worker; `loaded` holds the arguments of
`starnet_error` so far. -/
inductive Thread
  | sleep
  | versionLoaded (v : UInt32)
  | differ (v : UInt32)
  | error (v : UInt32) (loaded : List UInt32)
  | store (v : UInt32)

structure State where
  monitor : StarnetMonitor := {}
  worker : Worker := .idle
  thread : Thread := .sleep

/-- The accesses that matter for what a report says: a turn `begins` when its trigger has counted it
and `ends` with the last access of its check, a sample starts with `load` and compares the versions
in `compare`, and `report` is the call of `starnet_error`. -/
inductive Access
  | begins
  | ends
  | load
  | compare
  | report (source destination session : UInt32)
  | other

/-- The arguments of `starnet_error`. -/
def StarnetMonitor.arguments (m : StarnetMonitor) : List UInt32 :=
  [m.source, m.destination, m.session]

/-- One access of the worker. A service id is never 0. -/
inductive WorkerStep : State → Access → State → Prop
  | storeSource {σ : State} (source destination session : UInt32) (at_ : σ.worker = .idle)
      (id : destination ≠ 0) :
      WorkerStep σ .other { σ with
        monitor := { σ.monitor with source }
        worker := .sourceStored destination session }
  | storeDestination {σ : State} {destination session : UInt32}
      (at_ : σ.worker = .sourceStored destination session) :
      WorkerStep σ .other { σ with
        monitor := { σ.monitor with destination }
        worker := .destinationStored session }
  | storeSession {σ : State} {session : UInt32} (at_ : σ.worker = .destinationStored session) :
      WorkerStep σ .other { σ with
        monitor := { σ.monitor with session }
        worker := .sessionStored }
  | fetchAdd {σ : State} (at_ : σ.worker = .sessionStored) :
      WorkerStep σ .begins { σ with
        monitor := { σ.monitor with version := σ.monitor.version + 1 }
        worker := .turn }
  | loadVersion {σ : State} (at_ : σ.worker = .turn) :
      WorkerStep σ .other { σ with worker := .versionLoaded σ.monitor.version }
  | differs {σ : State} {v : UInt32} (at_ : σ.worker = .versionLoaded v)
      (ne : v ≠ σ.monitor.checkVersion) : WorkerStep σ .other { σ with worker := .differ v }
  | storeCheckVersion {σ : State} {v : UInt32} (at_ : σ.worker = .differ v) :
      WorkerStep σ .ends { σ with
        monitor := { σ.monitor with checkVersion := v }
        worker := .idle }
  | same {σ : State} {v : UInt32} (at_ : σ.worker = .versionLoaded v)
      (eq : v = σ.monitor.checkVersion) : WorkerStep σ .other { σ with worker := .clearSource }
  | clearSource {σ : State} (at_ : σ.worker = .clearSource) :
      WorkerStep σ .other { σ with
        monitor := { σ.monitor with source := 0 }
        worker := .clearDestination }
  | clearDestination {σ : State} (at_ : σ.worker = .clearDestination) :
      WorkerStep σ .other { σ with
        monitor := { σ.monitor with destination := 0 }
        worker := .clearSession }
  | clearSession {σ : State} (at_ : σ.worker = .clearSession) :
      WorkerStep σ .ends { σ with
        monitor := { σ.monitor with session := 0 }
        worker := .idle }

/-- One access of the monitor thread in `starnet_monitor_run`. -/
inductive ThreadStep : State → Access → State → Prop
  | loadVersion {σ : State} (at_ : σ.thread = .sleep) :
      ThreadStep σ .load { σ with thread := .versionLoaded σ.monitor.version }
  | same {σ : State} {v : UInt32} (at_ : σ.thread = .versionLoaded v)
      (eq : v = σ.monitor.checkVersion) : ThreadStep σ .compare { σ with thread := .sleep }
  | differs {σ : State} {v : UInt32} (at_ : σ.thread = .versionLoaded v)
      (ne : v ≠ σ.monitor.checkVersion) : ThreadStep σ .compare { σ with thread := .differ v }
  | destination {σ : State} {v : UInt32} (at_ : σ.thread = .differ v)
      (ne : σ.monitor.destination ≠ 0) : ThreadStep σ .other { σ with thread := .error v [] }
  | noDestination {σ : State} {v : UInt32} (at_ : σ.thread = .differ v)
      (eq : σ.monitor.destination = 0) : ThreadStep σ .other { σ with thread := .store v }
  | argument {σ : State} {v x : UInt32} {loaded : List UInt32} (at_ : σ.thread = .error v loaded)
      (next : σ.monitor.arguments[loaded.length]? = some x) :
      ThreadStep σ .other { σ with thread := .error v (loaded ++ [x]) }
  | report {σ : State} {v source destination session : UInt32}
      (at_ : σ.thread = .error v [source, destination, session]) :
      ThreadStep σ (.report source destination session) { σ with thread := .store v }
  | storeCheckVersion {σ : State} {v : UInt32} (at_ : σ.thread = .store v) :
      ThreadStep σ .other { σ with
        monitor := { σ.monitor with checkVersion := v }
        thread := .sleep }

inductive Step : State → Access → State → Prop
  | worker {σ σ' : State} {a : Access} (step : WorkerStep σ a σ') : Step σ a σ'
  | thread {σ σ' : State} {a : Access} (step : ThreadStep σ a σ') : Step σ a σ'

/-- A worker that has not begun a turn yet, and its monitor. -/
def monitoring : System State Access where
  init σ := σ = {}
  step := Step

/-! ### The past of a run -/

/-- What happened so far: how many turns have begun and how many have ended, how many had begun at
the start of each sample, the latest first, and how many at each report. -/
structure History where
  begun : Nat := 0
  ended : Nat := 0
  samples : List Nat := []
  reports : List Nat := []

def History.record (h : History) : Access → History
  | .begins => { h with begun := h.begun + 1 }
  | .ends => { h with ended := h.ended + 1 }
  | .load => { h with samples := h.begun :: h.samples }
  | .report .. => { h with reports := h.begun :: h.reports }
  | .compare | .other => h

def history (tr : List Access) : History := tr.foldl History.record {}

/-- The worker is in a turn that had begun before the last sample but one. -/
def History.Stuck (h : History) : Prop :=
  h.ended < h.begun ∧ h.samples[1]? = some h.begun

/-- As many turns have ended as had begun at the start of the last sample; both are counted with 32
bits. -/
def History.Settled (h : History) : Prop :=
  ∃ s, h.samples.head? = some s ∧ UInt32.ofNat s = UInt32.ofNat h.ended

/-- A report is made only when the worker has been in one turn since the sample before, and a turn
that spans two samples is reported. -/
structure Faithful (σ : State) (tr : List Access) : Prop where
  sound : ∀ t source destination session, t ++ [.report source destination session] <+: tr →
    (history t).Stuck
  complete : σ.thread = .sleep → (history tr).Stuck → (history tr).begun ∈ (history tr).reports

/-- When a sample compares the versions, the turns that had begun at its start have ended, and no
other one has. -/
def Undisturbed (tr : List Access) : Prop := ∀ t, t ++ [.compare] <+: tr → (history t).Settled

theorem history_concat (tr : List Access) (a : Access) :
    history (tr ++ [a]) = (history tr).record a := List.foldl_append ..

theorem undisturbed_concat (tr : List Access) (a : Access) :
    Undisturbed (tr ++ [a]) ↔ Undisturbed tr ∧ (a = .compare → (history tr).Settled) := by
  constructor
  · intro all
    refine ⟨fun t pre => all t (pre.trans (List.prefix_append ..)), ?_⟩
    rintro rfl
    exact all tr (List.prefix_refl _)
  · rintro ⟨before, last⟩ t pre
    rcases List.prefix_concat_iff.mp pre with eq | pre
    · obtain ⟨rfl, same⟩ := List.append_inj' eq rfl
      cases same
      exact last rfl
    · exact before t pre

theorem undisturbed_of_not_mem {tr : List Access} (none : .compare ∉ tr) : Undisturbed tr :=
  fun _ pre => absurd (pre.subset (List.mem_append_right _ List.mem_cons_self)) none

theorem ofNat_succ_ne (n : Nat) : UInt32.ofNat (n + 1) ≠ UInt32.ofNat n := by
  intro eq
  have same := congrArg UInt32.toNat eq
  rw [UInt32.toNat_ofNat', UInt32.toNat_ofNat'] at same
  omega

/-! ### Runs without a report -/

/-- What the place of the worker says about the turns, while the monitor thread has not stored a
version. -/
def Worker.Counts (m : StarnetMonitor) (h : History) : Worker → Prop
  | .idle => h.ended = h.begun
  | .sourceStored destination _ => h.ended = h.begun ∧ destination ≠ 0
  | .destinationStored _ | .sessionStored => h.ended = h.begun ∧ m.destination ≠ 0
  | .turn => h.ended + 1 = h.begun
  | .versionLoaded v | .differ v => h.ended + 1 = h.begun ∧ v = UInt32.ofNat h.begun
  | .clearSource | .clearDestination | .clearSession => False

/-- What the place of the monitor thread says about the samples, before a report. -/
def Thread.Counts (h : History) : Thread → Prop
  | .sleep => ∀ s ∈ h.samples, s ≤ h.ended
  | .versionLoaded v =>
    ∃ s, h.samples.head? = some s ∧ v = UInt32.ofNat s ∧ s ≤ h.begun ∧ s ≤ h.ended + 1
  | .differ _ => 0 < h.begun
  | .error .. => True
  | .store _ => False

/-- The thread has not found a difference in its round. -/
def Thread.Calm : Thread → Prop
  | .sleep | .versionLoaded _ => True
  | .differ _ | .error .. | .store _ => False

/-- The facts about a run that has no report. -/
structure Quiet (σ : State) (tr : List Access) : Prop where
  version : σ.monitor.version = UInt32.ofNat (history tr).begun
  checkVersion : σ.monitor.checkVersion = UInt32.ofNat (history tr).ended
  destination : 0 < (history tr).begun → σ.monitor.destination ≠ 0
  worker : σ.worker.Counts σ.monitor (history tr)
  thread : σ.thread.Counts (history tr)
  earlier : ∀ s ∈ (history tr).samples.tail, s ≤ (history tr).ended
  undisturbed : Undisturbed tr ↔ σ.thread.Calm
  reports : ∀ t source destination session, ¬ t ++ [.report source destination session] <+: tr

/-- A run with a report that is not right. -/
def FalseReport (tr : List Access) : Prop :=
  ¬ Undisturbed tr ∧ ∃ t source destination session,
    t ++ [.report source destination session] <+: tr ∧ ¬ (history t).Stuck

theorem FalseReport.concat {tr : List Access} (bad : FalseReport tr) (a : Access) :
    FalseReport (tr ++ [a]) := by
  obtain ⟨disturbed, t, source, destination, session, pre, wrong⟩ := bad
  refine ⟨fun all => disturbed ((undisturbed_concat tr a).mp all).1, ?_⟩
  exact ⟨t, source, destination, session, pre.trans (List.prefix_append ..), wrong⟩

theorem Thread.Counts.mono {thread : Thread} {h h' : History} (counts : thread.Counts h)
    (begun : h.begun ≤ h'.begun) (ended : h.ended ≤ h'.ended) (samples : h'.samples = h.samples) :
    thread.Counts h' := by
  cases thread with
  | sleep =>
    intro s mem
    exact (counts s (samples ▸ mem)).trans ended
  | versionLoaded v =>
    obtain ⟨s, last, eq, le, le'⟩ := counts
    exact ⟨s, samples ▸ last, eq, le.trans begun, le'.trans (Nat.succ_le_succ ended)⟩
  | differ v => exact Nat.lt_of_lt_of_le counts begun
  | error v loaded => trivial
  | store v => exact counts

namespace Quiet

variable {σ σ' : State} {tr : List Access} {a : Access}

theorem initial : Quiet {} [] where
  version := rfl
  checkVersion := rfl
  destination lt := absurd lt (Nat.lt_irrefl 0)
  worker := rfl
  thread _ mem := by cases mem
  earlier _ mem := by cases mem
  undisturbed := iff_of_true (fun t pre => by simp at pre) trivial
  reports t _ _ _ pre := by simp at pre

theorem no_report (quiet : Quiet σ tr)
    (other : ∀ source destination session, a ≠ .report source destination session)
    (t : List Access) (source destination session : UInt32) :
    ¬ t ++ [.report source destination session] <+: tr ++ [a] := by
  intro pre
  rcases List.prefix_concat_iff.mp pre with eq | pre
  · obtain ⟨rfl, same⟩ := List.append_inj' eq rfl
    cases same
    exact other source destination session rfl
  · exact quiet.reports t source destination session pre

/-- An access of the worker, where its own facts are kept. -/
theorem of_worker (quiet : Quiet σ tr) (step : WorkerStep σ a σ')
    (version : σ'.monitor.version = UInt32.ofNat ((history tr).record a).begun)
    (checkVersion : σ'.monitor.checkVersion = UInt32.ofNat ((history tr).record a).ended)
    (destination : 0 < ((history tr).record a).begun → σ'.monitor.destination ≠ 0)
    (worker : σ'.worker.Counts σ'.monitor ((history tr).record a)) : Quiet σ' (tr ++ [a]) := by
  have thread : σ'.thread = σ.thread := by cases step <;> rfl
  have samples : ((history tr).record a).samples = (history tr).samples := by cases step <;> rfl
  have begun : (history tr).begun ≤ ((history tr).record a).begun := by
    cases step <;> simp [History.record]
  have ended : (history tr).ended ≤ ((history tr).record a).ended := by
    cases step <;> simp [History.record]
  have noCompare : a ≠ .compare := by cases step <;> simp
  have other : ∀ source destination session, a ≠ .report source destination session := by
    cases step <;> simp
  constructor
  · rw [history_concat]
    exact version
  · rw [history_concat]
    exact checkVersion
  · rw [history_concat]
    exact destination
  · rw [history_concat]
    exact worker
  · rw [history_concat, thread]
    exact quiet.thread.mono begun ended samples
  · rw [history_concat, samples]
    exact fun s mem => (quiet.earlier s mem).trans ended
  · rw [undisturbed_concat, thread, ← quiet.undisturbed]
    exact and_iff_left fun eq => absurd eq noCompare
  · exact quiet.no_report other

theorem worker_step (quiet : Quiet σ tr) (step : WorkerStep σ a σ') : Quiet σ' (tr ++ [a]) := by
  have counts := quiet.worker
  have version := quiet.version
  have checkVersion := quiet.checkVersion
  have stored := quiet.destination
  cases step with
  | storeSource source destination session at_ id =>
    rw [at_] at counts
    exact quiet.of_worker (.storeSource source destination session at_ id) version checkVersion
      stored ⟨counts, id⟩
  | storeDestination at_ =>
    rw [at_] at counts
    exact quiet.of_worker (.storeDestination at_) version checkVersion (fun _ => counts.2) counts
  | storeSession at_ =>
    rw [at_] at counts
    exact quiet.of_worker (.storeSession at_) version checkVersion stored counts
  | fetchAdd at_ =>
    rw [at_] at counts
    refine quiet.of_worker (.fetchAdd at_) ?_ checkVersion (fun _ => counts.2) ?_
    · exact (congrArg (· + 1) version).trans (UInt32.ofNat_add _ 1).symm
    · exact congrArg Nat.succ counts.1
  | loadVersion at_ =>
    rw [at_] at counts
    exact quiet.of_worker (.loadVersion at_) version checkVersion stored ⟨counts, version⟩
  | differs at_ ne =>
    rw [at_] at counts
    exact quiet.of_worker (.differs at_ ne) version checkVersion stored counts
  | storeCheckVersion at_ =>
    rw [at_] at counts
    obtain ⟨counted, eq⟩ := counts
    refine quiet.of_worker (.storeCheckVersion at_) version ?_ stored counted
    exact eq.trans (congrArg UInt32.ofNat counted.symm)
  | same at_ eq =>
    rw [at_] at counts
    obtain ⟨counted, eq'⟩ := counts
    rw [eq', checkVersion, ← counted] at eq
    exact absurd eq (ofNat_succ_ne _)
  | clearSource at_ | clearDestination at_ | clearSession at_ =>
    rw [at_] at counts
    exact counts.elim

/-- An access of the monitor thread, where its own facts are kept. -/
theorem of_thread (quiet : Quiet σ tr) (step : ThreadStep σ a σ')
    (monitor : σ'.monitor = σ.monitor)
    (other : ∀ source destination session, a ≠ .report source destination session)
    (thread : σ'.thread.Counts ((history tr).record a))
    (earlier : ∀ s ∈ ((history tr).record a).samples.tail, s ≤ (history tr).ended)
    (undisturbed : (Undisturbed tr ∧ (a = .compare → (history tr).Settled)) ↔ σ'.thread.Calm) :
    Quiet σ' (tr ++ [a]) := by
  have worker : σ'.worker = σ.worker := by cases step <;> rfl
  have begun : ((history tr).record a).begun = (history tr).begun := by cases step <;> rfl
  have ended : ((history tr).record a).ended = (history tr).ended := by cases step <;> rfl
  have counts : σ.worker.Counts σ.monitor ((history tr).record a) := by
    have counts := quiet.worker
    cases place : σ.worker <;> rw [place] at counts <;>
      simp only [Worker.Counts, begun, ended] at counts ⊢ <;> exact counts
  constructor
  · rw [history_concat, monitor, begun]
    exact quiet.version
  · rw [history_concat, monitor, ended]
    exact quiet.checkVersion
  · rw [history_concat, monitor, begun]
    exact quiet.destination
  · rw [history_concat, monitor, worker]
    exact counts
  · rw [history_concat]
    exact thread
  · rw [history_concat, ended]
    exact earlier
  · rw [undisturbed_concat]
    exact undisturbed
  · exact quiet.no_report other

/-- The worker has begun a turn at most more than it has ended. -/
theorem begun_le (quiet : Quiet σ tr) :
    (history tr).ended ≤ (history tr).begun ∧ (history tr).begun ≤ (history tr).ended + 1 := by
  have counts := quiet.worker
  cases place : σ.worker <;> rw [place] at counts <;> simp only [Worker.Counts] at counts <;> omega

/-- A sample that finds no difference has found that no turn is under way. -/
theorem settled_of_same (quiet : Quiet σ tr) {v : UInt32} (at_ : σ.thread = .versionLoaded v)
    (eq : v = σ.monitor.checkVersion) :
    (history tr).Settled ∧ ∀ s ∈ (history tr).samples, s ≤ (history tr).ended := by
  have counts := quiet.thread
  rw [at_] at counts
  obtain ⟨s, last, loaded, -, le⟩ := counts
  have same : UInt32.ofNat s = UInt32.ofNat (history tr).ended := by
    rw [← loaded, eq, quiet.checkVersion]
  refine ⟨⟨s, last, same⟩, ?_⟩
  have earlier := quiet.earlier
  cases samples : (history tr).samples with
  | nil => simp
  | cons s' rest =>
    rw [samples] at last earlier
    obtain rfl : s' = s := Option.some.inj last
    intro t mem
    rcases List.mem_cons.mp mem with rfl | mem
    · refine Nat.le_of_not_lt fun lt => ?_
      obtain rfl : t = (history tr).ended + 1 := Nat.le_antisymm le lt
      exact ofNat_succ_ne _ same
    · exact earlier t mem

theorem not_settled_of_differs (quiet : Quiet σ tr) {v : UInt32} (at_ : σ.thread = .versionLoaded v)
    (ne : v ≠ σ.monitor.checkVersion) : ¬ (history tr).Settled ∧ 0 < (history tr).begun := by
  have counts := quiet.thread
  rw [at_] at counts
  obtain ⟨s, last, loaded, le, -⟩ := counts
  rw [loaded, quiet.checkVersion] at ne
  refine ⟨?_, ?_⟩
  · rintro ⟨s', last', same⟩
    cases last.symm.trans last'
    exact ne same
  · refine Nat.pos_of_ne_zero fun none => ne ?_
    have noEnd := quiet.begun_le.1
    obtain rfl : s = 0 := by omega
    rw [show (history tr).ended = 0 by omega]

theorem thread_step (quiet : Quiet σ tr) (step : ThreadStep σ a σ') :
    Quiet σ' (tr ++ [a]) ∨ FalseReport (tr ++ [a]) := by
  have counts := quiet.thread
  have earlier := quiet.earlier
  have undisturbed := quiet.undisturbed
  cases step with
  | loadVersion at_ =>
    rw [at_] at counts undisturbed
    refine .inl (quiet.of_thread (.loadVersion at_) rfl (by simp) ?_ counts ?_)
    · exact ⟨_, rfl, quiet.version, le_rfl, quiet.begun_le.2⟩
    · exact iff_of_true ⟨undisturbed.mpr trivial, by simp⟩ trivial
  | same at_ eq =>
    rw [at_] at undisturbed
    obtain ⟨settled, ended⟩ := quiet.settled_of_same at_ eq
    refine .inl (quiet.of_thread (.same at_ eq) rfl (by simp) ended earlier ?_)
    exact iff_of_true ⟨undisturbed.mpr trivial, fun _ => settled⟩ trivial
  | differs at_ ne =>
    obtain ⟨unsettled, begun⟩ := quiet.not_settled_of_differs at_ ne
    refine .inl (quiet.of_thread (.differs at_ ne) rfl (by simp) begun earlier ?_)
    exact iff_of_false (fun both => unsettled (both.2 rfl)) id
  | destination at_ ne =>
    rw [at_] at undisturbed
    refine .inl (quiet.of_thread (.destination at_ ne) rfl (by simp) trivial earlier ?_)
    exact iff_of_false (fun both => undisturbed.mp both.1) id
  | noDestination at_ eq =>
    rw [at_] at counts
    exact absurd eq (quiet.destination counts)
  | argument at_ next =>
    rw [at_] at undisturbed
    refine .inl (quiet.of_thread (.argument at_ next) rfl (by simp) trivial earlier ?_)
    exact iff_of_false (fun both => undisturbed.mp both.1) id
  | report at_ =>
    rw [at_] at undisturbed
    refine .inr ⟨?_, tr, _, _, _, List.prefix_refl _, ?_⟩
    · rw [undisturbed_concat]
      exact fun both => undisturbed.mp both.1
    · rintro ⟨lt, before⟩
      have mem : (history tr).begun ∈ (history tr).samples.tail := by
        rw [← List.getElem?_tail] at before
        exact List.mem_of_getElem? before
      exact absurd (earlier _ mem) (Nat.not_le.mpr lt)
  | storeCheckVersion at_ =>
    rw [at_] at counts
    exact counts.elim

/-- Every run is quiet, or it has a report that is not right. -/
theorem run (run : monitoring.Run σ tr) : Quiet σ tr ∨ FalseReport tr := by
  induction run with
  | init start =>
    obtain rfl : _ = ({} : State) := start
    exact .inl initial
  | step run step ih =>
    rcases ih with quiet | bad
    · cases step with
      | worker step => exact .inl (quiet.worker_step step)
      | thread step => exact quiet.thread_step step
    · exact .inr (bad.concat _)

theorem faithful (quiet : Quiet σ tr) : Faithful σ tr where
  sound t _ _ _ pre := absurd pre (quiet.reports t _ _ _)
  complete asleep stuck := by
    have counts := quiet.thread
    rw [asleep] at counts
    exact absurd (counts _ (List.mem_of_getElem? stuck.2)) (Nat.not_le.mpr stuck.1)

end Quiet

/-- In a run in which no sample is disturbed by a turn, every report is right and a turn that spans
two samples is reported. Between two samples these are the only runs in which that is so. -/
theorem faithful_iff_undisturbed {σ : State} {tr : List Access} (run : monitoring.Run σ tr) :
    (Undisturbed tr → Faithful σ tr) ∧
      (σ.thread = .sleep → Faithful σ tr → Undisturbed tr) := by
  rcases Quiet.run run with quiet | ⟨disturbed, t, source, destination, session, pre, wrong⟩
  · refine ⟨fun _ => quiet.faithful, fun asleep _ => quiet.undisturbed.mpr ?_⟩
    rw [asleep]
    trivial
  · refine ⟨fun undisturbed => absurd undisturbed disturbed, fun _ faithful => ?_⟩
    exact absurd (faithful.sound t source destination session pre) wrong

/-- A turn of service 1 has begun. -/
theorem run_begun : monitoring.Run ⟨{ version := 1, destination := 1 }, .turn, .sleep⟩
    [.other, .other, .other, .begins] := by
  have h0 : monitoring.Run _ _ := .init rfl
  have h1 := h0.step (.worker (.storeSource 0 1 0 rfl (by decide)))
  have h2 := h1.step (.worker (.storeDestination rfl))
  have h3 := h2.step (.worker (.storeSession rfl))
  exact h3.step (.worker (.fetchAdd rfl))

/-- A sample after a turn. -/
theorem faithful_iff_undisturbed_after : ∃ σ tr, monitoring.Run σ tr ∧ .compare ∈ tr ∧
    Undisturbed tr ∧ Faithful σ tr := by
  have h1 := run_begun.step (.worker (.loadVersion rfl))
  have h2 := h1.step (.worker (.differs rfl (by decide)))
  have h3 := h2.step (.worker (.storeCheckVersion rfl))
  have h4 := h3.step (.thread (.loadVersion rfl))
  have h5 := h4.step (.thread (.same rfl rfl))
  refine ⟨_, _, h5, by simp, ?undisturbed, (faithful_iff_undisturbed h5).1 ?undisturbed⟩
  rw [undisturbed_concat]
  exact ⟨undisturbed_of_not_mem (by simp), fun _ => ⟨1, rfl, rfl⟩⟩

/-- A sample that finds a turn under way. -/
theorem not_faithful_begun : ¬∀ σ tr, monitoring.Run σ tr → Faithful σ tr := by
  intro claim
  have h1 := run_begun.step (.thread (.loadVersion rfl))
  have h2 := h1.step (.thread (.differs rfl (by decide)))
  have h3 := h2.step (.thread (.destination rfl (by decide)))
  have h4 := h3.step (.thread (.argument rfl rfl))
  have h5 := h4.step (.thread (.argument rfl rfl))
  have h6 := h5.step (.thread (.argument rfl rfl))
  have h7 := h6.step (.thread (.report rfl))
  obtain ⟨-, before⟩ := (claim _ _ h7).sound _ _ _ _ (List.prefix_refl _)
  cases before

end Starnet.Monitor
