import Mathlib.Data.List.ReduceOption
import Starnet.Lib.Transition

/-! Refinement of one system by another. The abstract system has silent steps, with label `none`;
a concrete step shows at most one label and is followed by any number of abstract steps that show
the same. A component of a system does a run of its own. -/

namespace Transition

variable {σ τ α β : Type*}

namespace System

/-- `S` refines `T` along `R`, where `see` is what a step of `S` shows. -/
structure Refines (S : System σ α) (T : System τ (Option β)) (see : α → Option β)
    (R : σ → τ → Prop) : Prop where
  init : ∀ s, S.init s → ∃ t, T.init t ∧ R s t
  step : ∀ s tr a s' t, S.Run s tr → R s t → S.step s a s' →
    ∃ t' labels, (T.after t).Run t' labels ∧ labels.reduceOption = (see a).toList ∧ R s' t'

variable {S : System σ α} {T : System τ (Option β)} {see : α → Option β} {R : σ → τ → Prop}

/-- Every run of the concrete system is a run of the abstract one that shows the same. -/
theorem Refines.run (refines : S.Refines T see R) {s : σ} {tr : List α} (run : S.Run s tr) :
    ∃ t labels, T.Run t labels ∧ labels.reduceOption = tr.filterMap see ∧ R s t := by
  induction run with
  | init h =>
    obtain ⟨t, start, rel⟩ := refines.init _ h
    exact ⟨t, [], .init start, rfl, rel⟩
  | @step s s' tr a run h ih =>
    obtain ⟨t, labels, before, same, rel⟩ := ih
    obtain ⟨t', later, steps, shown, rel'⟩ := refines.step s tr a s' t run rel h
    refine ⟨t', labels ++ later, before.append steps, ?_, rel'⟩
    rw [List.reduceOption_append, List.filterMap_append, same, shown]
    cases shows : see a <;> simp [shows]

/-- The concrete system takes over a property of the abstract state and the labels shown. -/
theorem Refines.transfer (refines : S.Refines T see R) {P : τ → List β → Prop}
    (holds : ∀ t labels, T.Run t labels → P t labels.reduceOption) {s : σ} {tr : List α}
    (run : S.Run s tr) : ∃ t, R s t ∧ P t (tr.filterMap see) := by
  obtain ⟨t, labels, abstract, same, rel⟩ := refines.run run
  exact ⟨t, rel, same ▸ holds t labels abstract⟩

/-- The abstract system does one step. -/
theorem after_one {t t' : τ} {label : Option β} (h : T.step t label t') :
    (T.after t).Run t' [label] :=
  (Run.init rfl : (T.after t).Run t []).step h

/-- A component of the state does a run of its own when every step is one of it or leaves it. -/
theorem Run.component {T : System τ β} (f : σ → τ) (start : ∀ s, S.init s → T.init (f s))
    (each : ∀ s tr a s', S.Run s tr → S.step s a s' → f s' = f s ∨ ∃ b, T.step (f s) b (f s'))
    {s : σ} {tr : List α} (run : S.Run s tr) : ∃ labels, T.Run (f s) labels := by
  induction run with
  | init h => exact ⟨[], .init (start _ h)⟩
  | step run h ih =>
    obtain ⟨labels, before⟩ := ih
    rcases each _ _ _ _ run h with same | ⟨b, step⟩
    · exact ⟨labels, same ▸ before⟩
    · exact ⟨_, before.step step⟩

end System

end Transition
