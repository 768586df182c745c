import Mathlib.Algebra.BigOperators.Fin
import Mathlib.Data.Fintype.Basic

/-! Labelled transition systems: runs with their traces, the invariant rule, systems restricted by
a condition on their steps, and counts of the threads of a finite family that satisfy a
predicate. -/

namespace Transition

/-- A transition system with states `σ` and step labels `α`. -/
structure System (σ α : Type*) where
  init : σ → Prop
  step : σ → α → σ → Prop

namespace System

variable {σ α : Type*} {S : System σ α}

/-- `S.Run s tr`: a run of `S` from an initial state reaches `s` with the labels `tr`, the oldest
label first. -/
inductive Run (S : System σ α) : σ → List α → Prop
  | init {s : σ} (h : S.init s) : Run S s []
  | step {s s' : σ} {tr : List α} {a : α} (run : Run S s tr) (h : S.step s a s') :
      Run S s' (tr ++ [a])

/-- The system whose steps are those steps of `S` that meet `C`, a condition on the state before
the step and the label. -/
def restrict (S : System σ α) (C : σ → α → Prop) : System σ α where
  init := S.init
  step s a s' := S.step s a s' ∧ C s a

/-- The system whose steps are those steps of `S` that meet `C`, a condition on the state before
the step, the label and the state after it. -/
def confine (S : System σ α) (C : σ → α → σ → Prop) : System σ α where
  init := S.init
  step s a s' := S.step s a s' ∧ C s a s'

/-- The system that starts in state `s`: its runs are those that go on from `s`. -/
def after (S : System σ α) (s : σ) : System σ α where
  init s' := s' = s
  step := S.step

theorem Run.here {s : σ} {tr : List α} (_ : S.Run s tr) : (S.after s).Run s [] := .init rfl

theorem Run.append {s s' : σ} {tr tr' : List α} (run : S.Run s tr) (later : (S.after s).Run s' tr') :
    S.Run s' (tr ++ tr') := by
  induction later with
  | init h =>
    rw [List.append_nil, show _ = s from h]
    exact run
  | step _ h ih =>
    rw [← List.append_assoc]
    exact ih.step h

theorem Run.first {s : σ} (run : S.Run s []) : S.init s := by
  generalize eq : ([] : List α) = labels at run
  cases run with
  | init h => exact h
  | step _ _ => exact absurd eq.symm (List.append_ne_nil_of_right_ne_nil _ (List.cons_ne_nil _ _))

theorem Run.last {s : σ} {tr : List α} {a : α} (run : S.Run s (tr ++ [a])) :
    ∃ s₀, S.Run s₀ tr ∧ S.step s₀ a s := by
  generalize eq : tr ++ [a] = labels at run
  cases run with
  | init _ => exact absurd eq (List.append_ne_nil_of_right_ne_nil _ (List.cons_ne_nil _ _))
  | step run h =>
    obtain ⟨rfl, same⟩ := List.append_inj' eq rfl
    cases same
    exact ⟨_, run, h⟩

/-- A run reaches a state after every part of its labels, and goes on from there. -/
theorem Run.split {s : σ} {tr tr' : List α} (run : S.Run s (tr ++ tr')) :
    ∃ s₀, S.Run s₀ tr ∧ (S.after s₀).Run s tr' := by
  induction tr' using List.reverseRecOn generalizing s with
  | nil =>
    rw [List.append_nil] at run
    exact ⟨s, run, .init rfl⟩
  | append_singleton tr' a ih =>
    rw [← List.append_assoc] at run
    obtain ⟨s₁, before, h⟩ := run.last
    obtain ⟨s₀, start, later⟩ := ih before
    exact ⟨s₀, start, later.step h⟩

/-- The labels of a run determine its state when they determine the start and every step. -/
theorem Run.unique (start : ∀ s s', S.init s → S.init s' → s = s')
    (once : ∀ s a s₁ s₂, S.step s a s₁ → S.step s a s₂ → s₁ = s₂) {s s' : σ} {tr : List α}
    (run : S.Run s tr) (run' : S.Run s' tr) : s = s' := by
  induction run generalizing s' with
  | init h => exact start _ _ h run'.first
  | step _ h ih =>
    obtain ⟨s₀, before, h'⟩ := run'.last
    cases ih before
    exact once _ _ _ _ h h'

theorem Run.of_restrict {C : σ → α → Prop} {s : σ} {tr : List α}
    (run : (S.restrict C).Run s tr) : S.Run s tr := by
  induction run with
  | init h => exact .init h
  | step _ h ih => exact .step ih h.1

theorem Run.of_confine {C : σ → α → σ → Prop} {s : σ} {tr : List α}
    (run : (S.confine C).Run s tr) : S.Run s tr := by
  induction run with
  | init h => exact .init h
  | step _ h ih => exact .step ih h.1

/-- A run that meets a condition meets a weaker one. -/
theorem Run.mono {C D : σ → α → Prop} (weaker : ∀ s a, C s a → D s a) {s : σ} {tr : List α}
    (run : (S.restrict C).Run s tr) : (S.restrict D).Run s tr := by
  induction run with
  | init h => exact .init h
  | step _ h ih => exact .step ih ⟨h.1, weaker _ _ h.2⟩

theorem Run.confine_mono {C D : σ → α → σ → Prop} (weaker : ∀ s a s', C s a s' → D s a s') {s : σ}
    {tr : List α} (run : (S.confine C).Run s tr) : (S.confine D).Run s tr := by
  induction run with
  | init h => exact .init h
  | step _ h ih => exact .step ih ⟨h.1, weaker _ _ _ h.2⟩

/-- A property of the state and the trace that holds at the start and that every step from a
reached state keeps holds along every run. -/
theorem Run.invariant {P : σ → List α → Prop} (start : ∀ s, S.init s → P s [])
    (keep : ∀ s tr a s', S.Run s tr → P s tr → S.step s a s' → P s' (tr ++ [a]))
    {s : σ} {tr : List α} (run : S.Run s tr) : P s tr := by
  induction run with
  | init h => exact start _ h
  | step run h ih => exact keep _ _ _ _ run ih h

/-- A condition on the labels holds of every label of a restricted run. -/
theorem Run.labels {C : α → Prop} {s : σ} {tr : List α}
    (run : (S.restrict fun _ a => C a).Run s tr) : ∀ a ∈ tr, C a := by
  induction run with
  | init _ => exact nofun
  | step _ h ih =>
    intro a mem
    rcases List.mem_append.mp mem with mem | mem
    · exact ih a mem
    · rw [List.mem_singleton.mp mem]
      exact h.2

/-- The invariant rule for a property of the state alone. -/
theorem Run.stateInvariant {P : σ → Prop} (start : ∀ s, S.init s → P s)
    (keep : ∀ s a s', P s → S.step s a s' → P s') {s : σ} {tr : List α} (run : S.Run s tr) :
    P s :=
  run.invariant (P := fun s _ => P s) start fun _ _ _ _ _ hP h => keep _ _ _ hP h

/-- A run goes on with the steps that a function computes. -/
theorem Run.foldlM_mem {f : σ → α → Option σ} {as : List α}
    (sound : ∀ a ∈ as, ∀ s s', f s a = some s' → S.step s a s')
    {s s' : σ} {tr : List α} (run : S.Run s tr) (steps : as.foldlM f s = some s') :
    S.Run s' (tr ++ as) := by
  induction as generalizing s tr with
  | nil =>
    cases steps
    rwa [List.append_nil]
  | cons a as ih =>
    rw [List.foldlM_cons] at steps
    obtain ⟨next, first, rest⟩ := Option.bind_eq_some_iff.mp steps
    rw [List.append_cons]
    exact ih (fun a mem => sound a (List.mem_cons_of_mem _ mem))
      (run.step (sound a (List.mem_cons_self ..) _ _ first)) rest

theorem Run.foldlM {f : σ → α → Option σ} (sound : ∀ s a s', f s a = some s' → S.step s a s')
    {s s' : σ} {tr : List α} (run : S.Run s tr) {as : List α} (steps : as.foldlM f s = some s') :
    S.Run s' (tr ++ as) :=
  run.foldlM_mem (fun a _ s => sound s a) steps

/-- The run to `s` with the labels `tr` takes step `a` from `s₀` to `s₁`, after the labels
`before`. -/
structure Passes (S : System σ α) (s : σ) (tr before : List α) (s₀ : σ) (a : α) (s₁ : σ) :
    Prop where
  run : S.Run s₀ before
  step : S.step s₀ a s₁
  later : ∃ after, tr = before ++ a :: after ∧ (S.after s₁).Run s after

theorem Run.passes {s s' : σ} {tr : List α} {a : α} (run : S.Run s tr) (h : S.step s a s') :
    S.Passes s' (tr ++ [a]) tr s a s' :=
  ⟨run, h, [], rfl, .init rfl⟩

namespace Passes

variable {s s' s₀ s₁ : σ} {tr before : List α} {a b : α}

theorem next (p : S.Passes s tr before s₀ a s₁) (h : S.step s b s') :
    S.Passes s' (tr ++ [b]) before s₀ a s₁ := by
  obtain ⟨after, eq, later⟩ := p.later
  refine ⟨p.run, p.step, after ++ [b], ?_, later.step h⟩
  rw [eq, List.append_assoc, List.cons_append]

/-- What a run passes on the way to one of its states it passes. -/
theorem trans {earlier : List α} {t₀ t₁ : σ} (p : S.Passes s tr before s₀ a s₁)
    (q : S.Passes s₀ before earlier t₀ b t₁) : S.Passes s tr earlier t₀ b t₁ := by
  obtain ⟨after, rfl, later⟩ := p.later
  obtain ⟨between, rfl, on⟩ := q.later
  refine ⟨q.run, q.step, between ++ a :: after, by simp, ?_⟩
  have whole : (S.after t₁).Run s (between ++ [a] ++ after) := (on.step p.step).append later
  rwa [List.append_assoc] at whole

theorem length_lt (p : S.Passes s tr before s₀ a s₁) : before.length < tr.length := by
  obtain ⟨after, rfl, -⟩ := p.later
  simp

theorem of_confine {C : σ → α → σ → Prop} (p : (S.confine C).Passes s tr before s₀ a s₁) :
    S.Passes s tr before s₀ a s₁ := by
  obtain ⟨after, eq, later⟩ := p.later
  refine ⟨p.run.of_confine, p.step.1, after, eq, ?_⟩
  clear eq p
  induction later with
  | init h => exact .init h
  | step _ h ih => exact .step ih h.1

/-- What no step decreases has not decreased since. -/
theorem le_of_step {β : Type*} [Preorder β] {f : σ → β}
    (grows : ∀ s a s', S.step s a s' → f s ≤ f s') (p : S.Passes s tr before s₀ a s₁) :
    f s₀ ≤ f s := by
  obtain ⟨after, -, later⟩ := p.later
  refine (grows _ _ _ p.step).trans ?_
  clear p
  induction later with
  | init h => exact (congrArg f h).ge
  | step _ h ih => exact ih.trans (grows _ _ _ h)

/-- A run passes one step only with a given number of steps of a kind before it. -/
theorem unique {p : α → Bool} {before' : List α} {t₀ t₁ : σ}
    (q : S.Passes s tr before s₀ a s₁) (q' : S.Passes s tr before' t₀ b t₁) (ha : p a = true)
    (hb : p b = true) (count : before.countP p = before'.countP p) : before = before' ∧ a = b := by
  obtain ⟨after, rfl, -⟩ := q.later
  obtain ⟨after', eq, -⟩ := q'.later
  rcases List.append_eq_append_iff.mp eq with ⟨rest, rfl, tails⟩ | ⟨rest, rfl, tails⟩
  · cases rest with
    | nil => exact ⟨(List.append_nil _).symm, (List.cons.inj tails).1⟩
    | cons c rest =>
      obtain ⟨rfl, -⟩ := List.cons.inj tails
      rw [List.countP_append, List.countP_cons_of_pos ha] at count
      omega
  · cases rest with
    | nil => exact ⟨List.append_nil _, (List.cons.inj tails).1.symm⟩
    | cons c rest =>
      obtain ⟨rfl, -⟩ := List.cons.inj tails
      rw [List.countP_append, List.countP_cons_of_pos hb] at count
      omega

end Passes

end System

/-! ### Threads -/

section Threads

variable {ι β : Type*} [Fintype ι]

/-- The number of threads of `f` whose control state satisfies `p`. -/
def tally (p : β → Bool) (f : ι → β) : Nat := ∑ i, if p (f i) then 1 else 0

theorem tally_congr {p q : β → Bool} {f g : ι → β} (h : ∀ i, p (f i) = q (g i)) :
    tally p f = tally q g := by
  simp only [tally, h]

theorem tally_eq_zero {p : β → Bool} {f : ι → β} : tally p f = 0 ↔ ∀ i, p (f i) = false := by
  simp [tally]

variable [DecidableEq ι]

/-- The count as the share of thread `i` and that of the others. -/
theorem tally_split (p : β → Bool) (f : ι → β) (i : ι) :
    tally p f = (if p (f i) then 1 else 0) +
      ∑ j ∈ Finset.univ.erase i, if p (f j) then 1 else 0 :=
  (Finset.add_sum_erase _ (fun j => if p (f j) then 1 else 0) (Finset.mem_univ i)).symm

/-- A step of thread `i` to the control state `b` changes the count by thread `i` alone. -/
theorem tally_update (p : β → Bool) (f : ι → β) (i : ι) (b : β) :
    tally p (Function.update f i b) + (if p (f i) then 1 else 0) =
      tally p f + (if p b then 1 else 0) := by
  have others : ∑ j ∈ Finset.univ.erase i, (if p (Function.update f i b j) then 1 else 0) =
      ∑ j ∈ Finset.univ.erase i, (if p (f j) then 1 else 0) := by
    refine Finset.sum_congr rfl fun j hj => ?_
    rw [Function.update_of_ne (Finset.ne_of_mem_erase hj)]
  rw [tally_split p _ i, tally_split p f i, others, Function.update_self]
  omega

/-- A step that does not change whether thread `i` satisfies `p` keeps the count. -/
theorem tally_update_same {p : β → Bool} {f : ι → β} {i : ι} {b : β} (h : p b = p (f i)) :
    tally p (Function.update f i b) = tally p f := by
  have := tally_update p f i b
  rw [h] at this
  omega

theorem tally_pos {p : β → Bool} {f : ι → β} {i : ι} (h : p (f i) = true) : 0 < tally p f := by
  rw [tally_split p f i, h]
  simp only [if_true]
  omega

/-- When the count is at most one, the thread that satisfies `p` is unique. -/
theorem tally_unique {p : β → Bool} {f : ι → β} (h : tally p f ≤ 1) {i j : ι}
    (hi : p (f i) = true) (hj : p (f j) = true) : i = j := by
  by_contra ne
  have mem : j ∈ Finset.univ.erase i := Finset.mem_erase.mpr ⟨Ne.symm ne, Finset.mem_univ j⟩
  rw [tally_split p f i, ← Finset.add_sum_erase _ _ mem, hi, hj] at h
  simp only [if_true] at h
  omega

end Threads

end Transition
