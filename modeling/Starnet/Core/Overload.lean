import Starnet.Core.Turn

/-! The overload warnings of a queue. `Pop` doubles the threshold until it covers the length that it
leaves, and a threshold is reset by a `Pop` that finds the queue empty. A worker does not call `Pop`
on an empty queue in an ordinary turn, so a threshold outlives the episode that it was raised in. -/

namespace Starnet.Core

open Transition

variable {n : Nat} {σ σ' : State n} {tr : List (Event n)} {e : Event n} {r : ServiceRef}

/-! ### Episodes -/

/-- An episode of a queue lasts while messages are queued: the largest length that a `Pop` left
before it, since the last `Pop` that found the queue empty, the largest length that a `Pop` left in
it, and whether `ProcessMsg` reported an overload in it. -/
structure Load where
  earlier : Nat := 0
  most : Nat := 0
  reported : Bool := false
  deriving DecidableEq, Repr

/-- The worker goes from a call of `Pop` on `r` to the end of `ProcessMsgs`. -/
def WorkerPc.popsNothing (r : ServiceRef) : WorkerPc → WorkerPc → Bool
  | process srv (_ + 1), testExiting srv' => srv = r && srv' = r
  | _, _ => false

namespace Load

/-- The length that a `Pop` leaves, and a report of `ProcessMsg`. -/
def count (l : Load) (r : ServiceRef) (e : Event n) (σ' : State n) : Load :=
  match e with
  | .process _ srv _ =>
    if srv = r then { l with most := max l.most (σ'.srv r).mq.length } else l
  | .overload _ srv length =>
    if srv = r then { l with reported := l.reported || length ≠ 0 } else l
  | _ => l

/-- The episode of `r` after a step; one ends when no message is queued. -/
def next (l : Load) (r : ServiceRef) (σ : State n) (e : Event n) (σ' : State n) : Load :=
  let counted := l.count r e σ'
  if (σ'.srv r).mq.msgQueue = [] then
    if ∃ w, WorkerPc.popsNothing r (σ.worker w) (σ'.worker w) = true then {}
    else { earlier := max counted.earlier counted.most }
  else counted

end Load

/-- A worker that has called `Pop` on `r` is about to report the overload that it recorded. -/
def Reporting (σ : State n) (r : ServiceRef) : Prop :=
  (σ.srv r).mq.overload ≠ 0 ∧ ∃ w i msg, σ.worker w = .readOverload r i msg

/-- When a `Pop` of the episode has left more than `MQ_OVERLOAD` messages, an overload is
reported. -/
def Load.Announced (l : Load) (σ : State n) (r : ServiceRef) : Prop :=
  mqOverload < l.most → l.reported = true ∨ Reporting σ r

/-- A node with the episode of service `r`. -/
def loads (n : Nat) (r : ServiceRef) : System (State n × Load) (Event n) where
  init p := p = (State.initial n, {})
  step p e p' := Step p.1 e p'.1 ∧ p'.2 = p.2.next r p.1 e p'.1

/-! ### Levels of the threshold -/

/-- `t` is the least of the thresholds `MQ_OVERLOAD * 2 ^ k` that is at least `length`. -/
def Level (t length : Nat) : Prop :=
  ∃ k, t = mqOverload * 2 ^ k ∧ length ≤ t ∧ ∀ j < k, mqOverload * 2 ^ j < length

namespace Level

variable {t t' length length' : Nat}

theorem base (h : length ≤ mqOverload) : Level mqOverload length :=
  ⟨0, by simp, h, by simp⟩

theorem pos (l : Level t length) : 0 < t := by
  obtain ⟨k, rfl, -⟩ := l
  exact Nat.mul_pos (by decide) (Nat.two_pow_pos k)

theorem unique (l : Level t length) (l' : Level t' length) : t = t' := by
  obtain ⟨k, rfl, le, least⟩ := l
  obtain ⟨k', rfl, le', least'⟩ := l'
  rcases lt_trichotomy k k' with lt | rfl | lt
  · exact absurd (least' k lt) (by omega)
  · rfl
  · exact absurd (least k' lt) (by omega)

theorem grow (l : Level t length) (le : length ≤ length') (bound : length' ≤ t) :
    Level t length' := by
  obtain ⟨k, rfl, -, least⟩ := l
  exact ⟨k, rfl, bound, fun j lt => (least j lt).trans_le le⟩

/-- A length exceeds the level of another one if it exceeds some threshold that covers it. -/
theorem lt_iff (l : Level t length) :
    t < length' ↔ ∃ k, length ≤ mqOverload * 2 ^ k ∧ mqOverload * 2 ^ k < length' := by
  obtain ⟨k, rfl, le, least⟩ := l
  constructor
  · exact fun lt => ⟨k, le, lt⟩
  · rintro ⟨j, covers, lt⟩
    have ge : k ≤ j := by
      by_contra below
      have := least j (by omega)
      omega
    exact (Nat.mul_le_mul_left _ (Nat.pow_le_pow_right (by decide) ge)).trans_lt lt

end Level

theorem le_raiseOverload (length rounds overload threshold : Nat) :
    threshold ≤ (raiseOverload length rounds overload threshold).2 := by
  induction rounds generalizing overload threshold with
  | zero => exact le_rfl
  | succ rounds ih =>
    simp only [raiseOverload]
    split
    · exact (Nat.le_mul_of_pos_right _ (by decide)).trans (ih _ _)
    · exact le_rfl

theorem raiseOverload_overload {length rounds overload threshold : Nat} (pos : 0 < threshold)
    (enough : length < threshold + rounds) :
    (raiseOverload length rounds overload threshold).1 =
      if threshold < length then length else overload := by
  induction rounds generalizing overload threshold with
  | zero => rw [raiseOverload, if_neg (by omega)]
  | succ rounds ih =>
    simp only [raiseOverload]
    split
    · rename_i above
      rw [ih (by omega) (by omega)]
      split <;> rfl
    · rfl

/-- The loop stops at a threshold of the sequence, and each one that it passed was too small. -/
theorem raiseOverload_sequence {length rounds overload threshold h : Nat} (le : length ≤ h)
    (l : ∃ k, threshold = mqOverload * 2 ^ k ∧ ∀ j < k, mqOverload * 2 ^ j < h) :
    ∃ k, (raiseOverload length rounds overload threshold).2 = mqOverload * 2 ^ k ∧
      ∀ j < k, mqOverload * 2 ^ j < h := by
  induction rounds generalizing overload threshold with
  | zero => exact l
  | succ rounds ih =>
    simp only [raiseOverload]
    split
    · rename_i above
      obtain ⟨k, rfl, least⟩ := l
      refine ih ⟨k + 1, by rw [Nat.pow_succ, Nat.mul_assoc], fun j lt => ?_⟩
      rcases Nat.lt_succ_iff_lt_or_eq.mp lt with lt | rfl
      · exact least j lt
      · omega
    · exact l

/-- `Pop` raises the threshold to the level of the length that it leaves. -/
theorem Level.raise {t length length' : Nat} (l : Level t length) (overload : Nat) :
    Level (raiseOverload length' length' overload t).2 (max length length') := by
  have covers : length' ≤ (raiseOverload length' length' overload t).2 :=
    raiseOverload_le overload l.pos (Nat.lt_add_of_pos_left l.pos)
  have grows := le_raiseOverload length' length' overload t
  obtain ⟨k, eq, le, least⟩ := l
  have below : ∀ j < k, mqOverload * 2 ^ j < max length length' :=
    fun j lt => (least j lt).trans_le (le_max_left ..)
  have raised : ∃ k, (raiseOverload length' length' overload t).2 = mqOverload * 2 ^ k ∧
      ∀ j < k, mqOverload * 2 ^ j < max length length' :=
    raiseOverload_sequence (le_max_right length length') ⟨k, eq, below⟩
  obtain ⟨k', eq', least'⟩ := raised
  exact ⟨k', eq', max_le (le.trans grows) covers, least'⟩

/-- What `Pop` records of the length that it leaves. -/
theorem pop_raise {mq : StarnetMQ} {msg : BaseMsg} (popped : mq.pop.1 = some msg) :
    mq.pop.2.overload = (raiseOverload mq.pop.2.length mq.pop.2.length mq.overload
        mq.overloadThreshold).1 ∧
      mq.pop.2.overloadThreshold = (raiseOverload mq.pop.2.length mq.pop.2.length mq.overload
        mq.overloadThreshold).2 := by
  unfold StarnetMQ.pop at popped ⊢
  split at popped
  · rename_i queue
    simp [StarnetMQ.length]
  · contradiction

theorem pop_reset {mq : StarnetMQ} (popped : mq.pop.1 = none) :
    mq.pop.2 = { mq with overloadThreshold := mqOverload } := by
  unfold StarnetMQ.pop at popped ⊢
  split at popped
  · contradiction
  · rename_i queue
    simp [queue]

/-! ### One step -/

theorem WorkerPc.popsNothing_iff {pc pc' : WorkerPc} :
    WorkerPc.popsNothing r pc pc' = true ↔ ∃ i, pc = .process r (i + 1) ∧ pc' = .testExiting r := by
  unfold WorkerPc.popsNothing
  split
  · simp
  · rename_i other
    simp only [Bool.false_eq_true, false_iff]
    rintro ⟨i, rfl, rfl⟩
    exact other r i r rfl rfl

theorem Undisturbed.pops (same : Undisturbed σ σ' r) :
    ¬ ∃ w, WorkerPc.popsNothing r (σ.worker w) (σ'.worker w) = true := by
  rintro ⟨w, pops⟩
  obtain ⟨i, before, after⟩ := WorkerPc.popsNothing_iff.mp pops
  rw [same.process w i before] at after
  contradiction

theorem not_pops {w : Fin n} {pc : WorkerPc} (worker : σ'.worker = Function.update σ.worker w pc)
    (other : pc ≠ .testExiting r) :
    ¬ ∃ w, WorkerPc.popsNothing r (σ.worker w) (σ'.worker w) = true := by
  rintro ⟨w', pops⟩
  obtain ⟨i, before, after⟩ := WorkerPc.popsNothing_iff.mp pops
  rw [worker] at after
  by_cases same : w' = w
  · subst same
    rw [Function.update_self] at after
    exact other after
  · rw [Function.update_of_ne same, before] at after
    contradiction

/-- How the queue of `r` relates to its episode: `s` is the threshold that the episode began with,
and an overload is reported once the episode has exceeded it. -/
structure Load.Tracks (l : Load) (s : Nat) (σ : State n) (r : ServiceRef) : Prop where
  start : Level s l.earlier
  threshold : Level (σ.srv r).mq.overloadThreshold (max l.earlier l.most)
  reported : l.reported = true ∨ Reporting σ r ↔ s < l.most
  holder : (σ.srv r).mq.overload ≠ 0 → ∃ w i msg, σ.worker w = .readOverload r i msg
  idle : (σ.srv r).mq.msgQueue = [] → (σ.srv r).mq.overload = 0

namespace Load.Tracks

variable {l : Load} {s : Nat}

theorem initial : Load.Tracks {} mqOverload (State.initial n) r := by
  constructor
  · exact .base (Nat.zero_le _)
  · exact .base (Nat.zero_le _)
  · simp [Reporting, State.initial]
  · simp [State.initial]
  · simp [State.initial]

/-- While a worker is elsewhere with `r`, no overload is recorded. -/
theorem overload_eq_zero (t : l.Tracks s σ r) (token : Token σ r) {w : Fin n} {pc : WorkerPc}
    (h : σ.worker w = pc) (held : pc.held = some r) (other : ∀ i msg, pc ≠ .readOverload r i msg) :
    (σ.srv r).mq.overload = 0 := by
  by_contra recorded
  obtain ⟨w', i, msg, at'⟩ := t.holder recorded
  have same : w' = w := token.unique (by rw [at']; rfl) (by rw [h, held])
  subst same
  exact other i msg (h.symm.trans at')

/-- A step that keeps what `Pop` recorded and who is in `ProcessMsg`. -/
theorem keep (t : l.Tracks s σ r) (overload : (σ'.srv r).mq.overload = (σ.srv r).mq.overload)
    (threshold : (σ'.srv r).mq.overloadThreshold = (σ.srv r).mq.overloadThreshold)
    (same : Undisturbed σ σ' r)
    (idle : (σ'.srv r).mq.msgQueue = [] → (σ.srv r).mq.overload = 0) : l.Tracks s σ' r := by
  constructor
  · exact t.start
  · rw [threshold]
    exact t.threshold
  · rw [← t.reported]
    simp only [Reporting, overload, same.overload]
  · simp only [overload, same.overload]
    exact t.holder
  · rw [overload]
    exact idle

/-- The queue is empty: the episode ends, and its threshold stays. -/
theorem settle (t : l.Tracks s σ r) (empty : (σ.srv r).mq.msgQueue = []) :
    Load.Tracks { earlier := max l.earlier l.most } (σ.srv r).mq.overloadThreshold σ r := by
  refine ⟨t.threshold, ?_, ?_, t.holder, t.idle⟩
  · simpa using t.threshold
  · simp [Reporting, t.idle empty]

/-- `Pop` leaves `length` messages. -/
theorem pop (t : l.Tracks s σ r) (token : Token σ r) {w : Fin n} {i : Nat} {msg : BaseMsg}
    (h : σ.worker w = .process r (i + 1)) (popped : (σ.srv r).mq.pop.1 = some msg)
    (mq : (σ'.srv r).mq = (σ.srv r).mq.pop.2)
    (worker : σ'.worker = Function.update σ.worker w (.readOverload r i msg)) :
    Load.Tracks { l with most := max l.most (σ'.srv r).mq.length } s σ' r := by
  have none := t.overload_eq_zero token h rfl (by simp)
  have pos := t.threshold.pos
  obtain ⟨overload, threshold⟩ := pop_raise popped
  rw [raiseOverload_overload pos (Nat.lt_add_of_pos_left pos), none, ← mq] at overload
  rw [← mq] at threshold
  have at' : σ'.worker w = .readOverload r i msg := by rw [worker, Function.update_self]
  have reporting : Reporting σ' r ↔
      (σ.srv r).mq.overloadThreshold < (σ'.srv r).mq.length := by
    rw [Reporting, overload]
    constructor
    · rintro ⟨recorded, -⟩
      by_contra below
      exact recorded (if_neg below)
    · intro above
      rw [if_pos above]
      exact ⟨by omega, w, i, msg, at'⟩
  constructor
  · exact t.start
  · rw [threshold, ← max_assoc]
    exact t.threshold.raise _
  · have before := t.reported
    simp only [Reporting, none, ne_eq, not_true_eq_false, false_and, or_false] at before
    rw [reporting, before, lt_max_iff]
    by_cases exceeded : s < l.most
    · simp [exceeded]
    · have covers : Level s (max l.earlier l.most) := t.start.grow (le_max_left ..)
        (max_le (t.start.choose_spec.2.1) (Nat.le_of_not_lt exceeded))
      rw [covers.unique t.threshold]
  · exact fun _ => ⟨w, i, msg, at'⟩
  · intro empty
    rw [overload, StarnetMQ.length, empty]
    rfl

/-- `Pop` finds the queue empty. -/
theorem popNone (t : l.Tracks s σ r) (token : Token σ r) {w : Fin n} {i : Nat}
    (h : σ.worker w = .process r (i + 1)) (popped : (σ.srv r).mq.pop.1 = none)
    (mq : (σ'.srv r).mq = (σ.srv r).mq.pop.2) : Load.Tracks {} mqOverload σ' r := by
  have none := t.overload_eq_zero token h rfl (by simp)
  rw [pop_reset popped] at mq
  have overload : (σ'.srv r).mq.overload = 0 := by rw [mq, none]
  constructor
  · exact .base (Nat.zero_le _)
  · rw [mq]
    exact .base (Nat.zero_le _)
  · simp [Reporting, overload]
  · exact fun recorded => absurd overload recorded
  · exact fun _ => overload

/-- `Overload` reads what `Pop` recorded, and resets it. -/
theorem overload (t : l.Tracks s σ r) {w : Fin n} {i : Nat} {msg : BaseMsg}
    (h : σ.worker w = .readOverload r i msg)
    (mq : (σ'.srv r).mq = (σ.srv r).mq.takeOverload.2) :
    Load.Tracks { l with reported := l.reported || (σ.srv r).mq.overload ≠ 0 } s σ' r := by
  have none : (σ'.srv r).mq.overload = 0 := by rw [mq]; rfl
  constructor
  · exact t.start
  · rw [mq]
    exact t.threshold
  · rw [← t.reported]
    simp only [Reporting, none, Bool.or_eq_true, decide_eq_true_eq]
    constructor
    · rintro ((reported | recorded) | ⟨recorded, -⟩)
      · exact Or.inl reported
      · exact Or.inr ⟨recorded, w, i, msg, h⟩
      · exact absurd rfl recorded
    · rintro (reported | ⟨recorded, -⟩)
      · exact Or.inl (Or.inl reported)
      · exact Or.inl (Or.inr recorded)
  · exact fun recorded => absurd none recorded
  · exact fun _ => none


/-- The episode goes on or ends. -/
theorem next (t : (l.count r e σ').Tracks s σ' r)
    (pops : ¬ ∃ w, WorkerPc.popsNothing r (σ.worker w) (σ'.worker w) = true) :
    ∃ s', (l.next r σ e σ').Tracks s' σ' r := by
  by_cases empty : (σ'.srv r).mq.msgQueue = []
  · refine ⟨(σ'.srv r).mq.overloadThreshold, ?_⟩
    rw [Load.next, if_pos empty, if_neg pops]
    exact t.settle empty
  · refine ⟨s, ?_⟩
    rw [Load.next, if_neg empty]
    exact t

theorem count_quiet (quiet : e.processed r = none) (silent : ∀ w length, e ≠ .overload w r length) :
    l.count r e σ' = l := by
  unfold Load.count
  split
  · rw [if_neg]
    rintro rfl
    simp [Event.processed] at quiet
  · rw [if_neg]
    rintro rfl
    exact silent _ _ rfl
  · rfl

theorem step (t : l.Tracks s σ r) (born : Born σ) (token : Token σ r) (step : Step σ e σ') :
    ∃ s', (l.next r σ e σ').Tracks s' σ' r := by
  cases step.queueStep born r with
  | keep quiet queue overload threshold silent same =>
    refine next (s := s) ?_ same.pops
    rw [count_quiet quiet.2.1 silent]
    exact t.keep overload threshold same (by rw [queue]; exact t.idle)
  | push event mq same =>
    subst event
    refine next (s := s) ?_ same.pops
    rw [count_quiet rfl (by simp)]
    exact t.keep (by rw [mq]; rfl) (by rw [mq]; rfl) same (by rw [mq]; simp)
  | pop event h popped mq worker =>
    subst event
    refine next (s := s) ?_ (not_pops worker (by simp))
    rw [Load.count, if_pos rfl]
    exact t.pop token h popped mq worker
  | @popNone w i event h popped mq worker =>
    have pops : ∃ w, WorkerPc.popsNothing r (σ.worker w) (σ'.worker w) = true :=
      ⟨w, WorkerPc.popsNothing_iff.mpr ⟨i, h, by rw [worker, Function.update_self]⟩⟩
    refine ⟨mqOverload, ?_⟩
    rw [Load.next, if_pos (by rw [mq]; exact (StarnetMQ.pop_none popped).2), if_pos pops]
    exact t.popNone token h popped mq
  | overload event h mq worker =>
    subst event
    refine next (s := s) ?_ (not_pops worker (by simp))
    rw [Load.count, if_pos rfl]
    exact t.overload h mq
  | drop event h queue mq same =>
    subst event
    refine next (s := s) ?_ same.pops
    rw [count_quiet rfl (by simp)]
    exact t.keep (by rw [mq]; rfl) (by rw [mq]; rfl) same
      fun _ => t.overload_eq_zero token h rfl (by simp)

theorem announced (t : l.Tracks s σ r) : l.Announced σ r ↔
    l.most ≤ mqOverload ∨ ∃ k, l.earlier ≤ mqOverload * 2 ^ k ∧ mqOverload * 2 ^ k < l.most := by
  rw [Load.Announced, t.reported, t.start.lt_iff]
  by_cases small : l.most ≤ mqOverload
  · simp [small, Nat.not_lt.mpr small]
  · simp [small, Nat.lt_of_not_le small]


end Load.Tracks

theorem node_of_loads {l : Load} (run : (loads n r).Run (σ, l) tr) : (node n).Run σ tr := by
  generalize eq : (σ, l) = p at run
  have reached : (node n).Run p.1 tr := by
    clear eq
    induction run with
    | init h => exact .init (congrArg Prod.fst h)
    | step _ h ih => exact ih.step h.1
  rwa [← eq] at reached

theorem Load.Tracks.run {l : Load} (run : (loads n r).Run (σ, l) tr) :
    ∃ s, l.Tracks s σ r := by
  refine run.invariant (P := fun p _ => ∃ s, p.2.Tracks s p.1 r) ?_ ?_
  · rintro p rfl
    exact ⟨mqOverload, .initial⟩
  · rintro ⟨τ, l⟩ tr' e ⟨τ', l'⟩ before ⟨s, t⟩ ⟨step, next⟩
    have reached := node_of_loads before
    obtain ⟨s', t'⟩ := t.step (Born.run reached) (Token.run reached r) step
    exact ⟨s', next ▸ t'⟩

/-- A run reaches `σ`, and the lengths of its episodes are `earlier` and `most`. -/
def Reaches (r : ServiceRef) (σ : State n) (earlier most : Nat) : Prop :=
  ∃ l tr, (loads n r).Run (σ, l) tr ∧ l.earlier = earlier ∧ l.most = most

namespace Reaches

variable {a b : Nat}

/-- A step without a call of `Pop` on `r` keeps the lengths while the episode goes on, and while
there is none. -/
theorem quiet (h : Reaches r σ a b) (step : Step σ e σ') (quiet : e.processed r = none)
    (pops : ¬ ∃ w, WorkerPc.popsNothing r (σ.worker w) (σ'.worker w) = true)
    (open' : (σ'.srv r).mq.msgQueue ≠ [] ∨ b = 0) : Reaches r σ' a b := by
  obtain ⟨l, tr, run, rfl, rfl⟩ := h
  have counted : (l.count r e σ').earlier = l.earlier ∧ (l.count r e σ').most = l.most := by
    unfold Load.count
    split
    · rw [if_neg]
      · exact ⟨rfl, rfl⟩
      · rintro rfl
        simp [Event.processed] at quiet
    · split <;> exact ⟨rfl, rfl⟩
    · exact ⟨rfl, rfl⟩
  refine ⟨l.next r σ e σ', _, run.step ⟨step, rfl⟩, ?_⟩
  unfold Load.next
  by_cases empty : (σ'.srv r).mq.msgQueue = []
  · have none := open'.resolve_left (not_not.mpr empty)
    rw [if_pos empty, if_neg pops]
    simp [counted, none]
  · rw [if_neg empty]
    exact counted

/-- A call of `Send` while the service is in the global queue or held by a worker. -/
theorem send (h : Reaches r σ a b) (msg : BaseMsg) {toId : UInt32} {k : Nat}
    (found : σ.getService toId = some r) (idle : σ.call k = .idle)
    (free : (σ.srv r).mq.queueLock = false) (queue : (σ.srv r).mq.msgQueue ≠ [])
    (inside : (σ.srv r).mq.inGlobal = true) :
    Reaches r (σ.modQueue r fun mq => mq.push msg) a b := by
  have same : ∀ {τ τ' : State n}, τ'.worker = τ.worker →
      ¬ ∃ w, WorkerPc.popsNothing r (τ.worker w) (τ'.worker w) = true :=
    fun eq => (Undisturbed.refl eq).pops
  have h1 := h.quiet (.call (.send toId msg idle)) rfl (same rfl) (Or.inl queue)
  have h2 := h1.quiet (.call (.sendFound (r := r) (State.setCall_call_same ..) found)) rfl
    (same rfl) (Or.inl queue)
  have h3 := h2.quiet (.call (.sendPush (State.setCall_call_same ..) free)) rfl (same rfl)
    (Or.inl (by simp [State.modQueue]))
  have h4 := h3.quiet (.call (.sendEnter (State.setCall_call_same ..))) rfl (same rfl)
    (Or.inl (by simp [State.tryEnterGlobal, State.modQueue]))
  have entered : (((((σ.setCall k (.sendGet toId msg)).setCall k (.sendPush r msg)).modQueue r
      fun mq => mq.push msg).setCall k (.sendEnter r)).srv r).mq.inGlobal = true := by
    simpa [State.modQueue] using inside
  rw [State.tryEnterGlobal_inside entered, State.afterEnter_inside entered] at h4
  convert h4 using 1
  simp only [State.setCall, State.modQueue, State.modService, Function.update_idem]
  congr 1
  rw [← idle, Function.update_eq_self]

/-- A call of `Send` that schedules the service while no worker sleeps. -/
theorem sendFirst (h : Reaches r σ a 0) (msg : BaseMsg) {toId : UInt32} {k : Nat}
    (found : σ.getService toId = some r) (idle : σ.call k = .idle)
    (free : (σ.srv r).mq.queueLock = false) (outside : (σ.srv r).mq.inGlobal = false)
    (awake : σ.sleepCount = 0) :
    Reaches r { σ.modQueue r fun mq => { mq.push msg with inGlobal := true } with
      globalQueue := σ.globalQueue ++ [r] } a 0 := by
  have same : ∀ {τ τ' : State n}, τ'.worker = τ.worker →
      ¬ ∃ w, WorkerPc.popsNothing r (τ.worker w) (τ'.worker w) = true :=
    fun eq => (Undisturbed.refl eq).pops
  have h1 := h.quiet (.call (.send toId msg idle)) rfl (same rfl) (Or.inr rfl)
  have h2 := h1.quiet (.call (.sendFound (r := r) (State.setCall_call_same ..) found)) rfl
    (same rfl) (Or.inr rfl)
  have h3 := h2.quiet (.call (.sendPush (State.setCall_call_same ..) free)) rfl (same rfl)
    (Or.inr rfl)
  have h4 := h3.quiet (.call (.sendEnter (State.setCall_call_same ..))) rfl (same rfl) (Or.inr rfl)
  have enters : (((((σ.setCall k (.sendGet toId msg)).setCall k (.sendPush r msg)).modQueue r
      fun mq => mq.push msg).setCall k (.sendEnter r)).srv r).mq.inGlobal = false := by
    simpa [State.modQueue] using outside
  rw [State.tryEnterGlobal_outside enters, State.afterEnter_outside enters] at h4
  have h5 := h4.quiet (.wake (.wakeTest (State.setCall_call_same ..))) rfl (same rfl) (Or.inr rfl)
  convert h5 using 1
  simp only [State.setCall, State.modQueue, State.modService, Function.update_idem,
    Function.update_self, awake, if_pos]
  congr 1
  rw [← idle, Function.update_eq_self]

/-- The messages left, and the lengths after a `Pop` that leaves them. -/
theorem pop (h : Reaches r σ a b) (step : Step σ e σ') {w : Fin n} {msg : BaseMsg}
    (event : e = .process w r msg)
    (pops : ¬ ∃ w, WorkerPc.popsNothing r (σ.worker w) (σ'.worker w) = true) {rest : List BaseMsg}
    (queue : (σ'.srv r).mq.msgQueue = rest) :
    Reaches r σ' (if rest = [] then max a b else a) (if rest = [] then 0 else max b rest.length) := by
  obtain ⟨l, tr, run, rfl, rfl⟩ := h
  refine ⟨l.next r σ e σ', _, run.step ⟨step, rfl⟩, ?_⟩
  subst event queue
  by_cases empty : (σ'.srv r).mq.msgQueue = []
  · rw [Load.next, if_pos empty, if_neg pops]
    simp [Load.count, empty, StarnetMQ.length]
  · rw [Load.next, if_neg empty]
    simp [Load.count, empty, StarnetMQ.length]

/-- A call of `ProcessMsg` that pops a message. -/
theorem processMsg (h : Reaches r σ a b) {w : Fin n} {i : Nat} {msg : BaseMsg}
    {rest : List BaseMsg} (pc : σ.worker w = .process r (i + 1))
    (free : (σ.srv r).mq.queueLock = false) (queue : (σ.srv r).mq.msgQueue = msg :: rest) :
    Reaches r ((σ.modQueue r fun mq => mq.pop.2.takeOverload.2).setWorker w (.process r i))
      (if rest = [] then max a b else a) (if rest = [] then 0 else max b rest.length) := by
  have popped : (σ.srv r).mq.pop.1 = some msg := by rw [StarnetMQ.pop, queue]
  have left : (σ.srv r).mq.pop.2.msgQueue = rest := by
    have front := StarnetMQ.pop_some popped
    rw [queue] at front
    exact (List.cons.inj front).2.symm
  have kept : ∀ {τ : State n}, (τ.srv r).mq.msgQueue = rest →
      (τ.srv r).mq.msgQueue ≠ [] ∨ (if rest = [] then 0 else max b rest.length) = 0 := by
    intro τ eq
    by_cases none : rest = []
    · exact Or.inr (if_pos none)
    · exact Or.inl (eq ▸ none)
  have h1 := h.pop (.turn (.processPop pc free popped)) rfl (not_pops rfl (by simp))
    (show _ = rest by simpa [State.modQueue] using left)
  have h2 := h1.quiet (.turn (.readOverload (State.setWorker_worker_same ..)
    (by simpa [State.modQueue] using free))) rfl (not_pops rfl (by simp))
    (kept (by simpa [State.modQueue] using left))
  have h3 := h2.quiet (.turn (.onMsgReturn (State.setWorker_worker_same ..))) rfl
    (not_pops rfl (by simp)) (kept (by simpa [State.modQueue] using left))
  convert h3 using 1
  simp [State.setWorker, State.modQueue, State.modService]

end Reaches

/-- Service 0 of a node with 5 workers is live and registered with the id 1. Worker 4 is at `pc`,
`len` requests are queued, and no other thread is in the queue. -/
structure Serving (σ : State 5) (pc : WorkerPc) (len : Nat) (inGlobal : Bool) : Prop where
  found : σ.getService 1 = some 0
  idle : σ.call 0 = .idle
  awake : σ.sleepCount = 0
  global : σ.globalQueue = []
  worker : σ.worker 4 = pc
  free : (σ.srv 0).mq.queueLock = false
  live : (σ.srv 0).isExiting = false
  inside : (σ.srv 0).mq.inGlobal = inGlobal
  queue : (σ.srv 0).mq.msgQueue = List.replicate len (request 1)

/-- A run with the lengths `a` and `b` of its episodes reaches a state in which service 0 is
served. -/
def Served (pc : WorkerPc) (len : Nat) (inGlobal : Bool) (a b : Nat) : Prop :=
  ∃ σ, Reaches 0 σ a b ∧ Serving σ pc len inGlobal

namespace Served

variable {a b len : Nat}

theorem start : Served .popGlobal 0 false 0 0 := by
  have h0 : Reaches 0 (State.initial 5) 0 0 := ⟨{}, [], .init rfl, rfl, rfl⟩
  have h1 := h0.quiet (.service (.newService _)) rfl (Undisturbed.refl rfl).pops (Or.inr rfl)
  exact ⟨_, h1, by constructor <;> rfl⟩

/-- The first request schedules the service, and worker 4 takes it. -/
theorem take (h : Served .popGlobal 0 false a 0) : Served (.readLength 0) 1 true a 0 := by
  obtain ⟨σ, h0, s⟩ := h
  have h1 := h0.sendFirst (request 1) s.found s.idle s.free s.inside s.awake
  rw [s.global] at h1
  have h2 := h1.quiet (.sleep (.take s.worker (show _ = [0] from rfl))) rfl
    (not_pops rfl (by simp)) (Or.inr rfl)
  refine ⟨_, h2, s.found, s.idle, s.awake, rfl, by simp, ?_, ?_, ?_, ?_⟩
  · simpa [State.modQueue] using s.free
  · simpa [State.modQueue] using s.live
  · simp [State.modQueue]
  · simp [State.modQueue, s.queue]

/-- Requests that arrive before the worker reads the length. -/
theorem push (h : Served (.readLength 0) 1 true a 0) (m : Nat) :
    Served (.readLength 0) (m + 1) true a 0 := by
  induction m with
  | zero => exact h
  | succ m ih =>
    obtain ⟨σ, h0, s⟩ := ih
    have h1 := h0.send (request 1) s.found s.idle s.free (by rw [s.queue]; simp) s.inside
    refine ⟨_, h1, ?_⟩
    constructor
    · exact s.found
    · exact s.idle
    · exact s.awake
    · exact s.global
    · exact s.worker
    · simpa [State.modQueue] using s.free
    · simpa [State.modQueue] using s.live
    · simpa [State.modQueue] using s.inside
    · simp [State.modQueue, s.queue, List.replicate_succ']

/-- The weight of worker 4 is 0: it processes all messages. -/
theorem read (h : Served (.readLength 0) (len + 1) true a b) :
    Served (.process 0 (len + 1)) (len + 1) true a b := by
  obtain ⟨σ, h0, s⟩ := h
  have h1 := h0.quiet (.turn (.readLength s.worker s.free)) rfl (not_pops rfl (by simp))
    (Or.inl (by simp [s.queue]))
  have all : batch (weight (4 : Fin 5)) (σ.srv 0).mq.length = len + 1 := by
    rw [StarnetMQ.length, s.queue, List.length_replicate]
    exact Nat.shiftRight_zero
  rw [all] at h1
  exact ⟨_, h1, s.found, s.idle, s.awake, s.global, by simp, s.free, s.live, s.inside, s.queue⟩

theorem processMsg (h : Served (.process 0 (len + 1)) (len + 1) true a b) :
    Served (.process 0 len) len true (if len = 0 then max a b else a)
      (if len = 0 then 0 else max b len) := by
  obtain ⟨σ, h0, s⟩ := h
  have queue : (σ.srv 0).mq.msgQueue = request 1 :: List.replicate len (request 1) := by
    rw [s.queue, List.replicate_succ]
  have h1 := h0.processMsg s.worker s.free queue
  simp only [List.replicate_eq_nil_iff, List.length_replicate] at h1
  have left : (σ.srv 0).mq.pop.2.msgQueue = List.replicate len (request 1) := by
    rw [StarnetMQ.pop, queue]
  refine ⟨_, h1, s.found, s.idle, s.awake, s.global, by simp, ?_, ?_, ?_, ?_⟩
  · simpa [State.modQueue] using s.free
  · simpa [State.modQueue] using s.live
  · simpa [State.modQueue] using s.inside
  · simpa [State.modQueue] using left

/-- The turn processes the other requests, which ends the episode. -/
theorem drain (h : Served (.process 0 (len + 1)) (len + 1) true a b) (le : len ≤ b) :
    Served (.process 0 0) 0 true (max a b) 0 := by
  induction len with
  | zero => simpa using h.processMsg
  | succ len ih =>
    have next := h.processMsg
    simp only [Nat.add_one_ne_zero, if_false, max_eq_left le] at next
    exact ih next (by omega)

theorem finish (h : Served (.process 0 0) 0 true a 0) : Served .popGlobal 0 false a 0 := by
  obtain ⟨σ, h0, s⟩ := h
  have h1 := h0.quiet (.turn (.processDone s.worker)) rfl ?_ (Or.inr rfl)
  · have h2 := h1.quiet (.turn (.testLive (State.setWorker_worker_same ..) s.live)) rfl
      (not_pops rfl (by simp)) (Or.inr rfl)
    have h3 := h2.quiet (.turn (.finish (State.setWorker_worker_same ..) s.free)) rfl
      (not_pops rfl (by simp)) (Or.inr rfl)
    rw [State.finishDispatch_empty (by exact s.queue)] at h3
    refine ⟨_, h3, s.found, s.idle, s.awake, s.global, by simp, ?_, ?_, ?_, ?_⟩
    · simpa [State.modQueue] using s.free
    · simpa [State.modQueue] using s.live
    · simp [State.modQueue]
    · simpa [State.modQueue] using s.queue
  · exact (Undisturbed.setWorker rfl (by simp [s.worker]) (by simp [s.worker]) (by simp)).pops

/-- An episode in which the first `Pop` leaves `m + 1` messages. -/
theorem episode (h : Served .popGlobal 0 false a 0) (m : Nat) :
    Served (.process 0 (m + 1)) (m + 1) true a (m + 1) := by
  have next := ((h.take.push (m + 1)).read).processMsg
  simpa using next

end Served

end Starnet.Core
