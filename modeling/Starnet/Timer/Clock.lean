import Starnet.Timer.Update

/-! The time of the node. `starnet_updatetime` reads the monotonic clock in hundredths of a second,
adds what has passed to `current`, which `starnet_now` returns, and calls `timer_update` as many
times; other threads add timers meanwhile. -/

namespace Starnet.Timer

open Transition

/-- `struct timespec`. -/
structure Timespec where
  sec : UInt64
  nsec : UInt64
  deriving DecidableEq, Repr

/-- `systime`: the seconds and the hundredths of the second. -/
def systime (ti : Timespec) : UInt32 × UInt32 :=
  (ti.sec.toUInt32, (ti.nsec / 10000000).toUInt32)

/-- `gettime`. -/
def gettime (ti : Timespec) : UInt64 := ti.sec * 100 + ti.nsec / 10000000

/-- `TI` with its clocks. `left` are the rounds of the loop in `starnet_updatetime` whose
`timer_shift` is still to come. -/
structure Clock where
  timer : State
  starttime : UInt32
  current : UInt64
  currentPoint : UInt64
  left : Nat

namespace Clock

/-- `starnet_timer_init`, when the clocks show `real` and `mono`. -/
def timerInit (real mono : Timespec) : Clock where
  timer := ⟨.createTimer, 0, .outside⟩
  starttime := (systime real).1
  current := (systime real).2.toUInt64
  currentPoint := gettime mono
  left := 0

/-- `diff`. -/
def diff (c : Clock) (cp : UInt64) : UInt32 := (cp - c.currentPoint).toUInt32

/-- `starnet_updatetime` up to its loop. -/
def updatetime (c : Clock) (cp : UInt64) : Clock :=
  if cp < c.currentPoint then { c with currentPoint := cp }
  else if cp ≠ c.currentPoint then
    { c with
      currentPoint := cp
      current := c.current + (c.diff cp).toUInt64
      left := (c.diff cp).toNat }
  else c

/-- `starnet_now`. -/
def now (c : Clock) : UInt64 := c.current

/-- The timer thread is not in `starnet_updatetime`. -/
def Idle (c : Clock) : Prop := c.timer.pc = .outside ∧ c.left = 0

end Clock

/-- A step on the wheel, a reading of the monotonic clock, or a response that is sent at once. -/
inductive ClockEvent
  | timer (e : Event)
  | read (ti : Timespec)
  | sent (event : TimerEvent)
  deriving DecidableEq, Repr

/-- The steps: `starnet_timeout` in any thread, and the timer thread in `starnet_updatetime`. The
counter of its loop is an `int`, so a reading 2^31 or more ahead of the one before has no defined
meaning. -/
inductive ClockStep : Clock → ClockEvent → Clock → Prop
  | atOnce (c : Clock) (time : Int32) (event : TimerEvent) (past : time ≤ 0) :
      ClockStep c (.sent event) c
  | add (c : Clock) (time : Int32) (event : TimerEvent) (positive : 0 < time) :
      ClockStep c (.timer (.add (c.timer.node time.toInt.toNat event) time.toInt.toNat))
        { c with timer :=
          { c.timer with
            wheel := c.timer.wheel.addNode (c.timer.node time.toInt.toNat event)
            allocated := c.timer.allocated + 1 } }
  | read {c : Clock} (ti : Timespec) (idle : c.Idle)
      (int : c.currentPoint ≤ gettime ti → (c.diff (gettime ti)).toNat < 2147483648) :
      ClockStep c (.read ti) (c.updatetime (gettime ti))
  | shift {c : Clock} {left timer} (more : c.left = left + 1) (step : Step c.timer .shift timer) :
      ClockStep c (.timer .shift) { c with timer, left }
  | work {c : Clock} {e timer} (own : ∀ node time, e ≠ .add node time) (round : e ≠ .shift)
      (inside : c.timer.pc = .outside → c.left ≠ 0) (step : Step c.timer e timer) :
      ClockStep c (.timer e) { c with timer }

/-- The time of a node, from `starnet_timer_init` on. -/
def clock (real mono : Timespec) : System Clock ClockEvent where
  init c := c = .timerInit real mono
  step := ClockStep

/-! ### What a trace says of the time -/

/-- The steps on the wheel. -/
def wheelTrace (tr : List ClockEvent) : List Event :=
  tr.filterMap fun
    | .timer e => some e
    | _ => none

/-- What `starnet_updatetime` reads from the monotonic clock. -/
def readings (tr : List ClockEvent) : List UInt64 :=
  tr.filterMap fun
    | .read ti => some (gettime ti)
    | _ => none

/-- What the readings add to `current`. A reading that goes back adds nothing, and the difference of
two readings is cut to 32 bits. -/
def elapsed (point : UInt64) : List UInt64 → Nat
  | [] => 0
  | cp :: rest => (if cp < point then 0 else (cp - point).toUInt32.toNat) + elapsed cp rest

theorem elapsed_concat (point : UInt64) (cps : List UInt64) (cp : UInt64) :
    elapsed point (cps ++ [cp]) = elapsed point cps +
      if cp < cps.getLastD point then 0 else (cp - cps.getLastD point).toUInt32.toNat := by
  induction cps generalizing point with
  | nil => simp [elapsed]
  | cons first cps ih =>
    rw [List.cons_append, elapsed, elapsed, ih]
    have last : (first :: cps).getLastD point = cps.getLastD first := by cases cps <;> rfl
    rw [last, Nat.add_assoc]

/-! ### The invariant -/

/-- The clocks agree with the trace: `current` runs ahead of the wheel by the rounds that the running
`starnet_updatetime` has left. -/
structure Ticking (real mono : Timespec) (c : Clock) (tr : List ClockEvent) : Prop where
  wheel : timer.Run c.timer (wheelTrace tr)
  point : c.currentPoint = (readings tr).getLastD (gettime mono)
  passed : ticks (wheelTrace tr) + c.left = elapsed (gettime mono) (readings tr)
  current : c.current =
    (systime real).2.toUInt64 + UInt64.ofNat (elapsed (gettime mono) (readings tr))

namespace Ticking

variable {real mono : Timespec} {c c' : Clock} {tr : List ClockEvent} {e : ClockEvent}

theorem wheelTrace_concat (tr : List ClockEvent) (e : Event) :
    wheelTrace (tr ++ [.timer e]) = wheelTrace tr ++ [e] := by
  simp [wheelTrace]

theorem readings_concat (tr : List ClockEvent) (ti : Timespec) :
    readings (tr ++ [.read ti]) = readings tr ++ [gettime ti] := by
  simp [readings]

theorem readings_timer (tr : List ClockEvent) (e : Event) :
    readings (tr ++ [.timer e]) = readings tr := by
  simp [readings]

/-- A step on the wheel. -/
theorem onWheel (t : Ticking real mono c tr) {e : Event} {left : Nat}
    {timer : State} (step : Step c.timer e timer)
    (passed : ticks [e] + left = c.left) :
    Ticking real mono { c with timer, left } (tr ++ [.timer e]) := by
  refine ⟨?_, ?_, ?_, ?_⟩
  · rw [wheelTrace_concat]
    exact t.wheel.step step
  · rw [readings_timer]
    exact t.point
  · rw [readings_timer, wheelTrace_concat, ticks_append, Nat.add_assoc, passed]
    exact t.passed
  · rw [readings_timer]
    exact t.current

theorem ticks_own {e : Event} (round : e ≠ .shift) : ticks [e] = 0 := by
  cases e with
  | shift => exact absurd rfl round
  | tau | add | dispatch => rfl

theorem read (t : Ticking real mono c tr) (ti : Timespec) (done : c.left = 0) :
    Ticking real mono (c.updatetime (gettime ti)) (tr ++ [.read ti]) := by
  have trace : wheelTrace (tr ++ [.read ti]) = wheelTrace tr := by simp [wheelTrace]
  have more : elapsed (gettime mono) (readings (tr ++ [.read ti])) =
      elapsed (gettime mono) (readings tr) +
        if gettime ti < c.currentPoint then 0 else (c.diff (gettime ti)).toNat := by
    rw [readings_concat, elapsed_concat, ← t.point]
    rfl
  have last : gettime ti = (readings (tr ++ [.read ti])).getLastD (gettime mono) := by
    rw [readings_concat, List.getLastD_concat]
  have passed := t.passed
  rw [done] at passed
  unfold Clock.updatetime
  split
  · next back =>
    rw [if_pos back] at more
    exact ⟨trace ▸ t.wheel, last, by rw [trace, more, done, passed]; rfl,
      by rw [more]; exact t.current⟩
  · next forth =>
    rw [if_neg forth] at more
    split
    · refine ⟨trace ▸ t.wheel, last, ?_, ?_⟩
      · rw [trace, more, ← passed]
        rfl
      · dsimp only
        rw [more, t.current, UInt64.ofNat_add, UInt64.add_assoc]
        congr 2
        exact (UInt64.ofNat_toNat (x := (c.diff (gettime ti)).toUInt64)).symm
    · next same =>
      have none : (c.diff (gettime ti)).toNat = 0 := by
        rw [not_not.mp same, Clock.diff, UInt64.sub_self]
        rfl
      rw [none, Nat.add_zero] at more
      refine ⟨trace ▸ t.wheel, ?_, ?_, by rw [more]; exact t.current⟩
      · rw [← last, not_not.mp same]
      · rw [trace, more, done, passed]

theorem step (t : Ticking real mono c tr) (step : ClockStep c e c') :
    Ticking real mono c' (tr ++ [e]) := by
  cases step with
  | atOnce time event past =>
    have same : wheelTrace (tr ++ [.sent event]) = wheelTrace tr ∧
        readings (tr ++ [.sent event]) = readings tr := by simp [wheelTrace, readings]
    refine ⟨?_, ?_, ?_, ?_⟩
    · exact same.1 ▸ t.wheel
    · exact same.2 ▸ t.point
    · rw [same.1, same.2]
      exact t.passed
    · exact same.2 ▸ t.current
  | add time event positive =>
    have low := Int32.lt_iff_toInt_lt.mp positive
    have high := time.toInt_lt
    rw [Int32.toInt_zero] at low
    exact t.onWheel (.add c.timer time.toInt.toNat event (by omega) (by omega)) (Nat.zero_add _)
  | read ti idle => exact t.read ti idle.2
  | shift more step => exact t.onWheel step (by rw [more, Nat.add_comm]; rfl)
  | work own round inside step => exact t.onWheel step (by rw [ticks_own round, Nat.zero_add])

theorem run (run : (clock real mono).Run c tr) : Ticking real mono c tr := by
  refine run.invariant (P := Ticking real mono) ?_ fun _ _ _ _ _ t step => t.step step
  rintro _ rfl
  exact ⟨.init rfl, rfl, rfl, by simp [Clock.timerInit, readings, elapsed]⟩

end Ticking

/-! ### The clock of the node -/

/-- No reading goes back, or 2^32 hundredths of a second ahead. -/
def Steady (point : UInt64) (cps : List UInt64) : Prop :=
  (point :: cps).IsChain fun before after =>
    before ≤ after ∧ after.toNat < before.toNat + 4294967296

theorem elapsed_steady {point : UInt64} {cps : List UInt64} (steady : Steady point cps) :
    point.toNat + elapsed point cps = (cps.getLastD point).toNat := by
  induction cps generalizing point with
  | nil => rfl
  | cons cp cps ih =>
    obtain ⟨⟨le, near⟩, rest⟩ := List.isChain_cons_cons.mp steady
    have last : (cp :: cps).getLastD point = cps.getLastD cp := by cases cps <;> rfl
    have low := UInt64.le_iff_toNat_le.mp le
    have cut : (cp - point).toUInt32.toNat = cp.toNat - point.toNat := by
      rw [UInt64.toNat_toUInt32, UInt64.toNat_sub_of_le _ _ le, Nat.mod_eq_of_lt (by omega)]
    have rest := ih rest
    rw [last, elapsed, if_neg (UInt64.not_lt.mpr le), cut]
    omega

/-- In every run `starnet_now` is the hundredths of the second at the start and what the readings
have added, and the wheel is behind it by the rounds that are left. On a steady clock the readings
have added the time from the first reading to the last. -/
theorem now_follows_clock {real mono : Timespec} {c : Clock} {tr : List ClockEvent}
    (run : (clock real mono).Run c tr) :
    c.now = (systime real).2.toUInt64 + UInt64.ofNat (elapsed (gettime mono) (readings tr)) ∧
      c.timer.wheel.time = UInt32.ofNat (elapsed (gettime mono) (readings tr) - c.left) ∧
      c.left ≤ elapsed (gettime mono) (readings tr) ∧
      (Steady (gettime mono) (readings tr) →
        (gettime mono).toNat + elapsed (gettime mono) (readings tr) =
          ((readings tr).getLastD (gettime mono)).toNat) := by
  have t := Ticking.run run
  obtain ⟨pending, r⟩ := Refines.run t.wheel
  have passed := t.passed
  refine ⟨t.current, ?_, by omega, elapsed_steady⟩
  rw [r.holds.time, ← passed, Nat.add_sub_cancel]

/-- The clock is read at 12.5 s and at 12.53 s, and the wheel has two ticks to go. -/
theorem now_follows_clock_read : ∃ (c : Clock) (tr : List ClockEvent),
    (clock ⟨1700000000, 250000000⟩ ⟨12, 500000000⟩).Run c tr ∧ c.left = 2 ∧
      c.now = 25 + 3 ∧ c.timer.wheel.time = 1 ∧
      (gettime ⟨12, 500000000⟩).toNat + 3 = 1253 := by
  have h0 : (clock ⟨1700000000, 250000000⟩ ⟨12, 500000000⟩).Run _ _ := .init rfl
  have h1 := h0.step (.read ⟨12, 530000000⟩ ⟨rfl, rfl⟩ (by decide))
  have h2 := h1.step (.shift rfl (.shift (.inl rfl) rfl))
  have follows := now_follows_clock h2
  exact ⟨_, _, h2, rfl, follows.1, follows.2.1, follows.2.2.2 (by simp [Steady]; decide)⟩

/-! ### Timeouts -/

theorem dueAt_sublist (k now : Nat) (tr : List Event) : (dueAt k now tr).Sublist (added tr) := by
  induction tr generalizing now with
  | nil => exact .slnil
  | cons e tr ih =>
    cases e with
    | tau | dispatch => exact ih now
    | shift => exact ih (now + 1)
    | add node time =>
      rw [dueAt, added]
      split
      · exact (ih now).cons_cons node
      · exact (ih now).cons node

/-- A timer is due at one tick alone. -/
theorem count_dueAt {tr₁ tr₂ : List Event} {node : TimerNode} {time : Nat}
    (distinct : (added (tr₁ ++ .add node time :: tr₂)).Nodup) (k : Nat) :
    (dueAt k 0 (tr₁ ++ .add node time :: tr₂)).count node =
      if ticks tr₁ + time = k then 1 else 0 := by
  rw [added_append, added, List.nodup_append, List.nodup_cons] at distinct
  obtain ⟨-, ⟨after, -⟩, before⟩ := distinct
  have notBefore : node ∉ dueAt k 0 tr₁ := fun mem =>
    before node ((dueAt_sublist ..).subset mem) node (List.mem_cons_self ..) rfl
  have notAfter : node ∉ dueAt k (ticks tr₁) tr₂ := fun mem =>
    after ((dueAt_sublist ..).subset mem)
  rw [dueAt_append, Nat.zero_add, dueAt, List.count_append, List.count_eq_zero_of_not_mem notBefore,
    Nat.zero_add]
  split
  · rw [List.count_cons_self, List.count_eq_zero_of_not_mem notAfter]
  · exact List.count_eq_zero_of_not_mem notAfter

/-- A dispatch counts at the tick at which it takes place. -/
theorem count_dispatch (node : TimerNode) {tr : List Event} {now n : Nat}
    (within : now + ticks tr < n) :
    tr.count (.dispatch node) = ∑ k ∈ Finset.range n, (dispatchedAt k now tr).count node := by
  induction tr generalizing now with
  | nil => simp [dispatchedAt]
  | cons e tr ih =>
    cases e with
    | tau | add =>
      rw [List.count_cons_of_ne (by simp)]
      exact ih within
    | shift =>
      rw [List.count_cons_of_ne (by simp)]
      exact ih (by rw [ticks] at within; omega)
    | dispatch other =>
      have here : ∀ k, (dispatchedAt k now (.dispatch other :: tr)).count node =
          (if now = k then [other].count node else 0) + (dispatchedAt k now tr).count node := by
        intro k
        rw [dispatchedAt]
        split
        · rw [List.count_cons, List.count_singleton, Nat.add_comm]
        · rw [Nat.zero_add]
      have mem : now ∈ Finset.range n := Finset.mem_range.mpr (by omega)
      rw [Finset.sum_congr rfl fun k _ => here k, Finset.sum_add_distrib, Finset.sum_ite_eq,
        if_pos mem, ← ih within, List.count_cons, List.count_singleton, Nat.add_comm]
      simp

namespace Refines

variable {σ : State} {tr : List Event} {pending : List Due}

/-- Outside `timer_update` every timer that is due has been dispatched. -/
theorem idle (r : Refines σ tr pending) (outside : σ.pc = .outside) {k : Nat}
    (past : k ≤ ticks tr) : dispatchedAt k 0 tr = dueAt k 0 tr := by
  rcases past.lt_or_eq with earlier | rfl
  · exact r.past k earlier
  · have present := r.present
    rwa [outside, Pc.rest, List.append_nil] at present

theorem distinct (r : Refines σ tr pending) : (added tr).Nodup := by
  refine List.Nodup.of_map TimerNode.addr ?_
  rw [r.addrs]
  exact List.nodup_range

end Refines

theorem count_wheelTrace (tr : List ClockEvent) (e : Event) :
    (wheelTrace tr).count e = tr.count (.timer e) := by
  induction tr with
  | nil => rfl
  | cons first tr ih =>
    cases first with
    | timer e' =>
      change (e' :: wheelTrace tr).count e = _
      rw [List.count_cons, List.count_cons, ih]
      have same : (ClockEvent.timer e' == .timer e) = (e' == e) := by
        rw [Bool.eq_iff_iff, beq_iff_eq, beq_iff_eq]
        exact ClockEvent.timer.injEq .. ▸ Iff.rfl
      rw [same]
    | read | sent =>
      rw [List.count_cons_of_ne (by simp)]
      exact ih

/-- A call of `starnet_timeout` with the delay `time`, at which the wheel is behind by the rounds
`left`, is answered once `starnet_now` has gone on by `time - left`: after any later
`starnet_updatetime` the response has been sent once if the readings have come that far, and not at
all otherwise. -/
theorem timeout_in_time {real mono : Timespec} {c₁ c : Clock} {tr₁ tr₂ : List ClockEvent}
    {node : TimerNode} {time : Nat} (before : (clock real mono).Run c₁ tr₁)
    (later : ((clock real mono).after c₁).Run c (.timer (.add node time) :: tr₂))
    (idle : c.Idle) :
    (tr₁ ++ .timer (.add node time) :: tr₂).count (.timer (.dispatch node)) =
      if elapsed (gettime mono) (readings tr₁) + time ≤
        elapsed (gettime mono) (readings (tr₁ ++ .timer (.add node time) :: tr₂)) + c₁.left
      then 1 else 0 := by
  have t₁ := Ticking.run before
  have t := Ticking.run (before.append later)
  obtain ⟨pending, r⟩ := Refines.run t.wheel
  have wheel : wheelTrace (tr₁ ++ .timer (.add node time) :: tr₂) =
      wheelTrace tr₁ ++ .add node time :: wheelTrace tr₂ := by simp [wheelTrace]
  have passed₁ := t₁.passed
  have passed := t.passed
  rw [idle.2, Nat.add_zero] at passed
  -- Every tick up to the present one has dispatched what was due at it, and the timer was due at one.
  have within : 0 + ticks (wheelTrace (tr₁ ++ .timer (.add node time) :: tr₂)) <
      ticks (wheelTrace (tr₁ ++ .timer (.add node time) :: tr₂)) + 1 := by omega
  rw [← count_wheelTrace, count_dispatch node within,
    Finset.sum_congr rfl fun k mem => congrArg _
      (r.idle idle.1 (Nat.lt_succ_iff.mp (Finset.mem_range.mp mem)))]
  rw [← passed, wheel, Finset.sum_congr rfl fun k _ => count_dueAt (wheel ▸ r.distinct) k,
    Finset.sum_ite_eq]
  refine if_congr ?_ rfl rfl
  rw [Finset.mem_range]
  omega

/-- `starnet_timeout` with delay 2 between the first and the second of three rounds is answered in
the third, while `starnet_now` stands still. -/
theorem timeout_in_time_early : ∃ (c c' : Clock) (tr₁ tr₂ : List ClockEvent) (node : TimerNode),
    (clock ⟨0, 0⟩ ⟨0, 0⟩).Run c tr₁ ∧ c.left = 2 ∧ c.now = 3 ∧
      (clock ⟨0, 0⟩ ⟨0, 0⟩).Run c' (tr₁ ++ .timer (.add node 2) :: tr₂) ∧ c'.now = 3 ∧
      (tr₁ ++ .timer (.add node 2) :: tr₂).count (.timer (.dispatch node)) = 1 := by
  have h0 : (clock ⟨0, 0⟩ ⟨0, 0⟩).Run _ _ := .init rfl
  have h1 := h0.step (.read ⟨0, 30000000⟩ ⟨rfl, rfl⟩ (by decide))
  have h2 := h1.step (.shift rfl (.shift (.inl rfl) rfl))
  have h3 := h2.here.step (.add _ 2 ⟨1, 1⟩ (by decide))
  have h4 := h3.step (.shift rfl (.shift (.inl rfl) rfl))
  have h5 := h4.step (.shift rfl (.shift (.inl rfl) rfl))
  have h6 := h5.step (.work (by simp) (by simp) (by decide) (@Step.dispatch _ true _ _ rfl))
  have h7 := h6.step (.work (by simp) (by simp) (by decide) (.resume rfl))
  exact ⟨_, _, _, _, _, h2, rfl, rfl, h2.append h7, rfl, timeout_in_time h2 h7 ⟨rfl, rfl⟩⟩

end Starnet.Timer
