import Mathlib.Data.List.Nodup

/-! Iterations that find their place from the previous key alone. `next k` is the item after key
`k`, `some none` at the end, and `none` when the search for it does not end. -/

namespace Iteration

variable {K V : Type} {next : K → Option (Option (K × V))}

/-- The items visited from key `k` on; the result is `none` when the fuel runs out. -/
def visit (next : K → Option (Option (K × V))) : (fuel : Nat) → K → Option (List (K × V))
  | 0, _ => none
  | fuel + 1, k =>
    match next k with
    | none => none
    | some none => some []
    | some (some kv) => (visit next fuel kv.1).map (kv :: ·)

/-- From key `k` on the iteration visits the items of the list and ends. -/
inductive Visits (next : K → Option (Option (K × V))) : K → List (K × V) → Prop
  | last {k : K} (ends : next k = some none) : Visits next k []
  | step {k : K} {kv : K × V} {l : List (K × V)} (succ : next k = some (some kv))
      (rest : Visits next kv.1 l) : Visits next k (kv :: l)

variable {k a b : K} {kv : K × V} {l l' : List (K × V)}

theorem Visits.visit (visits : Visits next k l) {fuel : Nat} (enough : l.length < fuel) :
    visit next fuel k = some l := by
  induction visits generalizing fuel with
  | last ends =>
    cases fuel with
    | zero => cases enough
    | succ fuel => rw [Iteration.visit, ends]
  | step succ rest ih =>
    cases fuel with
    | zero => cases enough
    | succ fuel =>
      have visited := ih (Nat.lt_of_succ_lt_succ enough)
      simp only [Iteration.visit, succ, visited, Option.map_some]

theorem visits_of_visit {fuel : Nat} (visited : visit next fuel k = some l) : Visits next k l := by
  induction fuel generalizing k l with
  | zero => cases visited
  | succ fuel ih =>
    rw [visit] at visited
    split at visited
    · cases visited
    · rename_i ends
      cases visited
      exact .last ends
    · rename_i kv succ
      obtain ⟨rest, visited', rfl⟩ := Option.map_eq_some_iff.mp visited
      exact .step succ (ih visited')

/-- The items after a key are determined by it. -/
theorem Visits.unique (visits : Visits next k l) (visits' : Visits next k l') : l = l' := by
  induction visits generalizing l' with
  | last ends =>
    cases visits' with
    | last _ => rfl
    | step succ _ =>
      rw [ends] at succ
      cases succ
  | step succ rest ih =>
    cases visits' with
    | last ends =>
      rw [succ] at ends
      cases ends
    | step succ' rest' =>
      rw [succ] at succ'
      cases succ'
      rw [ih rest']

/-- The iteration goes on from each key that it visits, with fewer items left. -/
theorem Visits.from_key (visits : Visits next k l) (mem : a ∈ l.map Prod.fst) :
    ∃ rest, Visits next a rest ∧ rest.length < l.length := by
  induction visits with
  | last _ => cases mem
  | step succ rest ih =>
    rw [List.map_cons, List.mem_cons] at mem
    rcases mem with rfl | mem
    · exact ⟨_, rest, Nat.lt_succ_self _⟩
    · obtain ⟨rest, visits, lt⟩ := ih mem
      exact ⟨rest, visits, Nat.lt_succ_of_lt lt⟩

theorem Visits.next_ne_none (visits : Visits next k l) : next k ≠ none := by
  cases visits with
  | last ends =>
    rw [ends]
    nofun
  | step succ _ =>
    rw [succ]
    nofun

/-- An iteration that ends does not come back to where it starts. -/
theorem Visits.fresh (visits : Visits next k l) : k ∉ l.map Prod.fst := by
  intro mem
  obtain ⟨rest, visits', lt⟩ := visits.from_key mem
  rw [visits.unique visits'] at lt
  exact Nat.lt_irrefl _ lt

/-- An iteration that ends visits each key once. -/
theorem Visits.nodup (visits : Visits next k l) : (l.map Prod.fst).Nodup := by
  induction visits with
  | last _ => exact List.nodup_nil
  | step succ rest ih => exact List.nodup_cons.mpr ⟨rest.fresh, ih⟩

/-- The item after a key is not the item after a later key. -/
theorem Visits.next_ne (rest : Visits next kv.1 l) (mem : b ∈ kv.1 :: l.map Prod.fst) :
    next b ≠ some (some kv) := by
  intro succ
  have again : Visits next b (kv :: l) := .step succ rest
  rcases List.mem_cons.mp mem with rfl | mem
  · exact again.fresh List.mem_cons_self
  · obtain ⟨rest', visits, lt⟩ := rest.from_key mem
    rw [visits.unique again, List.length_cons] at lt
    omega

/-- Two keys with the same next item are the same. -/
theorem Visits.next_inj (visits : Visits next k l) (ha : a ∈ k :: l.map Prod.fst)
    (hb : b ∈ k :: l.map Prod.fst) (na : next a = some (some kv)) (nb : next b = some (some kv)) :
    a = b := by
  induction visits with
  | last _ => rw [List.mem_singleton.mp ha, List.mem_singleton.mp hb]
  | step succ rest ih =>
    rcases List.mem_cons.mp ha with first | later
    · subst first
      rcases List.mem_cons.mp hb with first | later'
      · exact first.symm
      · rw [succ] at na
        cases na
        exact absurd nb (rest.next_ne later')
    · rcases List.mem_cons.mp hb with first | later'
      · subst first
        rw [succ] at nb
        cases nb
        exact absurd na (rest.next_ne later)
      · exact ih later later'

end Iteration
