import Mathlib.Data.List.Basic
import Mathlib.Logic.Function.Basic

/-! Buckets of items. Each item of a list has its place among the buckets, and a bucket holds the
items of its place in the order of the list. Adding an item, emptying a bucket and moving the items
of one bucket to lower ones keep this. -/

namespace Buckets

variable {ι α β : Type*} [DecidableEq ι]

/-- The bucket `i` holds what `val` makes of the items of `items` with the place `i`, in their
order. -/
def Sorts (val : α → β) (place : α → ι) (items : List α) (bucket : ι → List β) : Prop :=
  ∀ i, bucket i = (items.filter fun x => place x = i).map val

/-- `x` is added behind the items of its place. -/
def append (bucket : ι → List β) (i : ι) (x : β) : ι → List β :=
  Function.update bucket i (bucket i ++ [x])

variable {val : α → β} {place place' : α → ι} {items : List α} {bucket : ι → List β}

theorem append_apply (bucket : ι → List β) (i j : ι) (x : β) :
    append bucket i x j = bucket j ++ if i = j then [x] else [] := by
  unfold append
  by_cases same : j = i
  · subst same
    rw [Function.update_self, if_pos rfl]
  · rw [Function.update_of_ne same, if_neg (Ne.symm same), List.append_nil]

theorem Sorts.congr (h : Sorts val place items bucket)
    (same : ∀ x ∈ items, place' x = place x) : Sorts val place' items bucket := by
  intro i
  rw [h i]
  exact congrArg _ (List.filter_congr fun x mem => by rw [same x mem])

/-- A new item behind the others. -/
theorem Sorts.add (h : Sorts val place items bucket) (x : α) :
    Sorts val place (items ++ [x]) (append bucket (place x) (val x)) := by
  intro i
  rw [append_apply, h i, List.filter_append, List.map_append]
  by_cases same : place x = i <;> simp [same]

/-- The bucket `i` is emptied and its items leave the list. -/
theorem Sorts.clear (h : Sorts val place items bucket) (i : ι) :
    Sorts val place (items.filter fun x => place x ≠ i) (Function.update bucket i []) := by
  intro j
  rw [List.filter_filter]
  by_cases same : j = i
  · subst same
    rw [Function.update_self, List.filter_eq_nil_iff.mpr (by simp), List.map_nil]
  · rw [Function.update_of_ne same, h j]
    refine congrArg _ (List.filter_congr fun x _ => ?_)
    by_cases at_j : place x = j <;> simp [at_j, same]

/-- Appending a list of items one by one. -/
theorem foldl_append (place : α → ι) (val : α → β) (moved : List α) (bucket : ι → List β) (i : ι) :
    moved.foldl (fun b x => append b (place x) (val x)) bucket i =
      bucket i ++ (moved.filter fun x => place x = i).map val := by
  induction moved generalizing bucket with
  | nil => simp
  | cons x moved ih =>
    rw [List.foldl_cons, ih, append_apply, List.filter_cons]
    by_cases same : place x = i <;> simp [same]

/-- The items of the bucket `m` move to buckets in `low`, which were empty; all others stay. -/
theorem Sorts.move (h : Sorts val place items bucket) {m : ι} {low : ι → Prop} (high : ¬ low m)
    (down : ∀ x ∈ items, place x = m → low (place' x))
    (stay : ∀ x ∈ items, place x ≠ m → place' x = place x ∧ ¬ low (place x)) :
    Sorts val place' items ((items.filter fun x => place x = m).foldl
      (fun b x => append b (place' x) (val x)) (Function.update bucket m [])) := by
  intro i
  rw [foldl_append, List.filter_filter]
  by_cases below : low i
  · have ne : i ≠ m := fun eq => high (eq ▸ below)
    have empty : (items.filter fun x => place x = i) = [] := by
      refine List.filter_eq_nil_iff.mpr fun x mem => ?_
      simp only [decide_eq_true_eq]
      exact fun eq => (stay x mem (eq ▸ ne)).2 (eq ▸ below)
    rw [Function.update_of_ne ne, h i, empty, List.map_nil, List.nil_append]
    refine congrArg _ (List.filter_congr fun x mem => ?_)
    by_cases at_m : place x = m
    · simp [at_m]
    · have kept := stay x mem at_m
      have other : place' x ≠ i := fun eq => kept.2 (kept.1 ▸ eq ▸ below)
      simp [other]
  · have none : (items.filter fun x => decide (place' x = i) && decide (place x = m)) = [] := by
      refine List.filter_eq_nil_iff.mpr fun x mem => ?_
      simp only [Bool.and_eq_true, decide_eq_true_eq, not_and]
      exact fun eq at_m => below (eq ▸ down x mem at_m)
    rw [none, List.map_nil, List.append_nil]
    by_cases same : i = m
    · subst same
      rw [Function.update_self, List.filter_eq_nil_iff.mpr, List.map_nil]
      intro x mem
      simp only [decide_eq_true_eq]
      intro eq
      by_cases at_m : place x = i
      · exact below (eq ▸ down x mem at_m)
      · exact at_m ((stay x mem at_m).1 ▸ eq)
    · rw [Function.update_of_ne same, h i]
      refine congrArg _ (List.filter_congr fun x mem => ?_)
      by_cases at_m : place x = m
      · have other : place' x ≠ i := fun eq => below (eq ▸ down x mem at_m)
        simp [at_m, other, Ne.symm same]
      · rw [(stay x mem at_m).1]

/-- All buckets together get the added item. -/
theorem flatMap_append_perm (bucket : ι → List β) {buckets : List ι} (once : buckets.Nodup) {i : ι}
    (mem : i ∈ buckets) (x : β) :
    (buckets.flatMap (append bucket i x)).Perm (buckets.flatMap bucket ++ [x]) := by
  induction buckets with
  | nil => cases mem
  | cons j buckets ih =>
    obtain ⟨absent, once⟩ := List.nodup_cons.mp once
    rw [List.flatMap_cons, List.flatMap_cons, append_apply]
    by_cases same : i = j
    · subst same
      have rest : buckets.flatMap (append bucket i x) = buckets.flatMap bucket := by
        refine List.flatMap_congr fun k mem => ?_
        have ne : i ≠ k := fun eq => absent (eq ▸ mem)
        rw [append_apply, if_neg ne, List.append_nil]
      rw [if_pos rfl, rest, List.append_assoc, List.append_assoc]
      exact List.perm_append_comm.append_left _
    · have later : i ∈ buckets := (List.mem_cons.mp mem).resolve_left same
      rw [if_neg same, List.append_nil, List.append_assoc]
      exact (ih once later).append_left _

end Buckets
