import Mathlib.Data.List.Perm.Subperm
import Mathlib.Data.List.Range

/-! Chains of slots linked by index. `Path next o l` says that the links from `o` visit the slots
of `l` and end. A search along a path is a search in its list. -/

namespace Chain

/-- From `o` the links visit the slots of the list, one after another, and end. -/
inductive Path (next : Nat → Option Nat) : Option Nat → List Nat → Prop
  | nil : Path next none []
  | cons (i : Nat) {l : List Nat} (rest : Path next (next i) l) : Path next (some i) (i :: l)

/-- Search along the links from slot `i`; the result is `none` when the fuel runs out. -/
def walk (next : Nat → Option Nat) (p : Nat → Bool) : (fuel i : Nat) → Option (Option Nat)
  | 0, _ => none
  | fuel + 1, i =>
    if p i then some (some i)
    else
      match next i with
      | none => some none
      | some j => walk next p fuel j

variable {next next' : Nat → Option Nat} {o : Option Nat} {l : List Nat}

theorem Path.congr (path : Path next o l) (same : ∀ i ∈ l, next' i = next i) : Path next' o l := by
  induction path with
  | nil => exact .nil
  | cons i rest ih =>
    have rest := ih fun j mem => same j (List.mem_cons_of_mem _ mem)
    rw [← same i List.mem_cons_self] at rest
    exact .cons i rest

/-- A slot `n` linked in after slot `m`. -/
theorem Path.insert {m n : Nat} (path : Path next (next m) l) (after : next' m = some n)
    (link : next' n = next m) (same : ∀ i ∈ l, next' i = next i) :
    Path next' (next' m) (n :: l) := by
  have rest := path.congr same
  rw [← link] at rest
  rw [after]
  exact .cons n rest

/-- The path from a slot in the middle. -/
theorem Path.suffix (path : Path next o l) {i : Nat} (mem : i ∈ l) :
    ∃ l', Path next (some i) l' ∧ l' <:+ l := by
  induction path with
  | nil => cases mem
  | cons j rest ih =>
    rcases List.mem_cons.mp mem with rfl | mem
    · exact ⟨_, .cons i rest, List.suffix_refl _⟩
    · obtain ⟨l', path, suffix⟩ := ih mem
      exact ⟨l', path, suffix.trans (List.suffix_cons _ _)⟩

/-- A path through distinct slots below `n` has at most `n` slots. -/
theorem length_le {n : Nat} (nodup : l.Nodup) (bound : ∀ i ∈ l, i < n) : l.length ≤ n := by
  have sub : l ⊆ List.range n := fun i mem => List.mem_range.mpr (bound i mem)
  have le := (nodup.subperm sub).length_le
  rwa [List.length_range] at le

variable {p : Nat → Bool} {fuel : Nat}

/-- With enough fuel the search finds the first slot of the path that satisfies `p`. -/
theorem walk_eq_find {i : Nat} (path : Path next (some i) l) (enough : l.length ≤ fuel) :
    walk next p fuel i = some (l.find? p) := by
  induction fuel generalizing i l with
  | zero =>
    cases path with
    | cons _ rest => simp at enough
  | succ fuel ih =>
    cases path with
    | @cons _ l rest =>
      rw [walk, List.find?_cons]
      cases found : p i with
      | true => rfl
      | false =>
        rw [List.length_cons] at enough
        cases link : next i with
        | none =>
          rw [link] at rest
          cases rest with
          | nil => rfl
        | some j =>
          rw [link] at rest
          exact ih rest (by omega)

/-- The slot found satisfies `p`, and is the first one or some slot's link. -/
theorem walk_found {i j : Nat} (found : walk next p fuel i = some (some j)) :
    p j = true ∧ (j = i ∨ ∃ k, next k = some j) := by
  induction fuel generalizing i with
  | zero => cases found
  | succ fuel ih =>
    rw [walk] at found
    split at found
    · rename_i here
      cases found
      exact ⟨here, Or.inl rfl⟩
    · split at found
      · cases found
      · rename_i k link
        obtain ⟨here, origin⟩ := ih found
        refine ⟨here, Or.inr ?_⟩
        rcases origin with rfl | origin
        · exact ⟨i, link⟩
        · exact origin

end Chain
