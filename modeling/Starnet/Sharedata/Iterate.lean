import Starnet.Lib.Iteration
import Starnet.Sharedata.Lookup

/-! Iteration over a built table. `NextKey` finds its place again from the previous key, and takes
the integer 0 for the start. -/

namespace Starnet.Sharedata

open SharedTable Iteration

variable {V : Type} {t : SharedTable V} {start : Nat} {prev : Key} {l : List (Key × Option V)}

/-! ### Steps -/

/-- Every slot holds an entry. -/
def Full (t : SharedTable V) : Prop := ∀ n ∈ t.hash, n.value.isSome = true

theorem nextHashSlot_eq (full : Full t) (start : Nat) :
    t.nextHashSlot start = ((t.hash.drop start).map Node.entry).head? := by
  rw [nextHashSlot, List.head?_map]
  cases rest : t.hash.drop start with
  | nil => rfl
  | cons n rest' =>
    have mem : n ∈ t.hash := List.mem_of_mem_drop (rest ▸ List.mem_cons_self)
    have value := full n mem
    rw [Option.isSome_iff_ne_none] at value
    simp [Option.isNone_iff_eq_none, value, Node.entry]

theorem exists_first_slot (full : Full t) (nonempty : 0 < t.hash.length) :
    ∃ kv, t.nextHashSlot 0 = some kv := by
  rw [nextHashSlot_eq full, List.drop_zero]
  cases slots : t.hash with
  | nil =>
    rw [slots] at nonempty
    cases nonempty
  | cons n rest => exact ⟨_, rfl⟩

theorem nextArraySlot_end (done : t.array.length ≤ start) :
    t.nextArraySlot start = t.nextHashSlot 0 := by
  rw [nextArraySlot, Nat.sub_eq_zero_of_le done]
  rfl

theorem nextArraySlot_step (lt : start < t.array.length) :
    t.nextArraySlot start =
      match t.array.getD start none with
      | none => t.nextArraySlot (start + 1)
      | some v => some (.integer (Int64.ofNat (start + 1)), some v) := by
  have more : t.array.length - start = t.array.length - (start + 1) + 1 := by omega
  rw [nextArraySlot, more, List.range'_succ, List.find?_cons]
  cases value : t.array.getD start none with
  | none => rfl
  | some v =>
    rw [Option.isSome_some]
    exact congrArg _ (congrArg _ value)

theorem nextKey_start (t : SharedTable V) : t.nextKey (.integer 0) = some (t.nextArraySlot 0) := rfl

theorem nextKey_index {i : Nat} (small : t.array.length < 2 ^ 63) (lt : i < t.array.length) :
    t.nextKey (.integer (Int64.ofNat (i + 1))) = some (t.nextArraySlot (i + 1)) := by
  have value : (Int64.ofNat (i + 1)).toInt = i + 1 := by
    rw [Int64.toInt_ofNat_of_lt (by omega)]
    omega
  have ne : Key.integer (Int64.ofNat (i + 1)) ≠ .integer 0 := by
    intro eq
    rw [Key.integer.inj eq] at value
    have zero : (0 : Int64).toInt = 0 := rfl
    omega
  have range : 0 < (Int64.ofNat (i + 1)).toInt ∧
      (Int64.ofNat (i + 1)).toInt ≤ t.array.length := by omega
  have index : (Int64.ofNat (i + 1)).toInt.toNat = i + 1 := by omega
  simp only [nextKey, if_neg ne, if_pos range, index]

theorem nextKey_hash (ne : prev ≠ .integer 0) (outside : ¬Indexed t prev) :
    t.nextKey prev = (t.lookupHash prev).map fun
      | some i => t.nextHashSlot (i + 1)
      | none => t.nextHashSlot 0 := by
  cases prev with
  | string s => rfl
  | integer x =>
    have range : ¬(0 < x.toInt ∧ x.toInt ≤ t.array.length) := fun range => outside ⟨x, rfl, range⟩
    simp only [nextKey, if_neg ne, if_neg range]
    rfl

/-! ### Runs -/

/-- From before a slot, with the slots after each key found, the iteration visits the slots. -/
theorem visits_hash (full : Full t)
    (found : ∀ i, i < t.hash.length → t.nextKey (nodeAt t.hash i).key = some (t.nextHashSlot (i + 1)))
    (here : t.nextKey prev = some (t.nextHashSlot start)) :
    Visits t.nextKey prev ((t.hash.drop start).map Node.entry) := by
  induction left : t.hash.length - start generalizing start prev with
  | zero =>
    rw [nextHashSlot_eq full] at here
    rw [List.drop_eq_nil_of_le (by omega)] at here ⊢
    exact .last here
  | succ left ih =>
    have lt : start < t.hash.length := by omega
    rw [nextHashSlot_eq full] at here
    rw [List.drop_eq_getElem_cons lt] at here ⊢
    refine .step here (ih ?_ (by omega))
    rw [← nodeAt_eq_getElem lt]
    exact found start lt

/-- From before an index, the iteration visits the values of the array part and goes on to the
slots. -/
theorem visits_array (small : t.array.length < 2 ^ 63) (full : Full t)
    (found : ∀ i, i < t.hash.length → t.nextKey (nodeAt t.hash i).key = some (t.nextHashSlot (i + 1)))
    (here : t.nextKey prev = some (t.nextArraySlot start)) :
    ∃ l, Visits t.nextKey prev l ∧ ∀ kv, kv ∈ l ↔ kv ∈ t.hash.map Node.entry ∨
      ∃ i v, start ≤ i ∧ i < t.array.length ∧ t.array.getD i none = some v ∧
        kv = (.integer (Int64.ofNat (i + 1)), some v) := by
  induction left : t.array.length - start generalizing start prev with
  | zero =>
    rw [nextArraySlot_end (by omega)] at here
    refine ⟨_, visits_hash full found here, fun kv => ?_⟩
    rw [List.drop_zero, or_iff_left]
    rintro ⟨i, v, ge, lt, -⟩
    omega
  | succ left ih =>
    have lt : start < t.array.length := by omega
    rw [nextArraySlot_step lt] at here
    cases value : t.array.getD start none with
    | none =>
      rw [value] at here
      obtain ⟨l, visits, mem⟩ := ih here (by omega)
      refine ⟨l, visits, fun kv => (mem kv).trans (or_congr_right ?_)⟩
      constructor
      · rintro ⟨i, v, ge, more⟩
        exact ⟨i, v, by omega, more⟩
      · rintro ⟨i, v, ge, lt, get, eq⟩
        refine ⟨i, v, ?_, lt, get, eq⟩
        have ne : i ≠ start := by
          rintro rfl
          rw [value] at get
          cases get
        omega
    | some v =>
      rw [value] at here
      obtain ⟨l, visits, mem⟩ := ih (nextKey_index small lt) (by omega)
      refine ⟨_, .step here visits, fun kv => ?_⟩
      rw [List.mem_cons, mem]
      constructor
      · rintro (rfl | slot | ⟨i, v, ge, more⟩)
        · exact Or.inr ⟨start, v, Nat.le_refl _, lt, value, rfl⟩
        · exact Or.inl slot
        · exact Or.inr ⟨i, v, by omega, more⟩
      · rintro (slot | ⟨i, v', ge, lt', get, rfl⟩)
        · exact Or.inr (Or.inl slot)
        · rcases Nat.eq_or_lt_of_le ge with rfl | gt
          · rw [value] at get
            cases get
            exact Or.inl rfl
          · exact Or.inr (Or.inr ⟨i, v', gt, lt', get, rfl⟩)

/-! ### Built tables -/

variable {n : Int} {fields : List (Key × V)}

/-- The fields of a table, as its slots hold them. -/
def slots (fields : List (Key × V)) : List (Key × Option V) :=
  fields.map fun field => (field.1, some field.2)

theorem mem_slots {kv : Key × Option V} :
    kv ∈ slots fields ↔ ∃ v, (kv.1, v) ∈ fields ∧ some v = kv.2 := by
  rw [slots, List.mem_map]
  constructor
  · rintro ⟨field, mem, rfl⟩
    exact ⟨field.2, mem, rfl⟩
  · rintro ⟨v, mem, eq⟩
    exact ⟨_, mem, Prod.ext rfl eq⟩

theorem map_fst_slots : (slots fields).map Prod.fst = fields.map Prod.fst := by
  rw [slots, List.map_map]
  rfl

theorem build_full (distinct : (fields.map Prod.fst).Nodup) : Full (build n fields) := by
  intro node mem
  have e := entries_hashItems n distinct
  obtain ⟨-, perm⟩ := hashPart_perm e.distinct e.present
  rw [build_hash n distinct] at mem
  exact e.present _ (perm.mem_iff.mp (List.mem_map_of_mem (f := Node.entry) mem))

theorem build_small (distinct : (fields.map Prod.fst).Nodup) :
    (build n fields).array.length < 2 ^ 63 := by
  rw [build_array]
  exact (building n distinct).small

/-- The key of a slot is one of the fields, outside of the array part. -/
theorem slot_key (distinct : (fields.map Prod.fst).Nodup) {i : Nat}
    (lt : i < (build n fields).hash.length) :
    (nodeAt (build n fields).hash i).key ∈ fields.map Prod.fst ∧
      ¬Indexed (build n fields) (nodeAt (build n fields).hash i).key := by
  have e := entries_hashItems n distinct
  rw [build_hash n distinct, (hashPart_perm e.distinct e.present).1] at lt
  have mem := e.entry_mem lt
  rw [← build_hash n distinct] at mem
  obtain ⟨outside, v, mem, -⟩ := mem_hashItems.mp mem
  refine ⟨List.mem_map_of_mem mem, fun indexed => ?_⟩
  rw [indexed.inArray distinct] at outside
  cases outside

/-- The slots and the array part hold the fields. -/
theorem mem_slots_iff (distinct : (fields.map Prod.fst).Nodup) (kv : Key × Option V) :
    (kv ∈ (build n fields).hash.map Node.entry ∨
      ∃ i v, 0 ≤ i ∧ i < (build n fields).array.length ∧
        (build n fields).array.getD i none = some v ∧
        kv = (.integer (Int64.ofNat (i + 1)), some v)) ↔ kv ∈ slots fields := by
  have e := entries_hashItems n distinct
  have small := build_small (n := n) distinct
  have short := (building n distinct).short
  rw [← build_array] at short
  rw [mem_slots, build_hash n distinct, (hashPart_perm e.distinct e.present).2.mem_iff, mem_hashItems]
  constructor
  · rintro (⟨-, v, mem, eq⟩ | ⟨i, v, -, lt, get, rfl⟩)
    · exact ⟨v, mem, eq⟩
    · have value : (Int64.ofNat (i + 1)).toInt = i + 1 := by
        rw [Int64.toInt_ofNat_of_lt (by omega)]
        omega
      have inside : inArray n (.integer (Int64.ofNat (i + 1))) = true :=
        decide_eq_true ⟨by omega, by omega⟩
      have field := build_getD distinct inside
      have index : (Int64.ofNat (i + 1)).toInt.toNat - 1 = i := by omega
      rw [index, get] at field
      exact ⟨v, (lookup_eq_some distinct).mp field.symm, rfl⟩
  · rintro ⟨v, mem, eq⟩
    obtain ⟨key, o⟩ := kv
    cases inside : inArray n key with
    | false => exact Or.inl ⟨rfl, v, mem, eq⟩
    | true =>
      cases key with
      | string s => cases inside
      | integer x =>
        have range := of_decide_eq_true inside
        have get := build_getD distinct inside
        rw [(lookup_eq_some distinct).mpr mem] at get
        have lt : x.toInt.toNat - 1 < (build n fields).array.length := by
          by_contra ge
          rw [List.getD_eq_getElem?_getD, List.getElem?_eq_none (by omega)] at get
          cases get
        refine Or.inr ⟨x.toInt.toNat - 1, v, Nat.zero_le _, lt, get, ?_⟩
        have index : x.toInt.toNat - 1 + 1 = x.toInt.toNat := by omega
        have below := x.toInt_lt
        have same : Int64.ofNat x.toInt.toNat = x := by
          rw [← Int64.toInt_inj, Int64.toInt_ofNat_of_lt (by omega)]
          omega
        rw [index, same]
        exact Prod.ext rfl eq.symm

/-- With the integer 0 not a key and links that fit, the slot of each key is found again. -/
theorem found_again (distinct : (fields.map Prod.fst).Nodup)
    (nonzero : .integer 0 ∉ fields.map Prod.fst) (fits : LinksFit (hashItems n fields)) {i : Nat}
    (lt : i < (build n fields).hash.length) :
    (build n fields).nextKey (nodeAt (build n fields).hash i).key =
      some ((build n fields).nextHashSlot (i + 1)) := by
  have e := entries_hashItems n distinct
  have built := build_hash n distinct
  obtain ⟨known, outside⟩ := slot_key distinct lt
  rw [nextKey_hash (fun eq => nonzero (eq ▸ known)) outside]
  rw [built, (hashPart_perm e.distinct e.present).1] at lt
  rcases e.lookupHash_eq fits built (nodeAt (build n fields).hash i).key with
    ⟨j, lt', search, same⟩ | ⟨-, unhashed⟩
  · rw [built] at same
    rw [search, e.slot_unique lt' lt same]
    rfl
  · have mem := e.entry_mem lt
    rw [← built] at mem
    exact absurd (List.mem_map_of_mem (f := Prod.fst) mem) unhashed

/-- Some visited key, that is no slot's, is followed by the first slot. -/
theorem exists_before_hash (small : t.array.length < 2 ^ 63) (visits : Visits t.nextKey prev l)
    (here : t.nextKey prev = some (t.nextArraySlot start)) :
    ∃ a ∈ prev :: l.map Prod.fst, t.nextKey a = some (t.nextHashSlot 0) ∧
      (a = prev ∨ Indexed t a) := by
  induction left : t.array.length - start generalizing start prev l with
  | zero =>
    rw [nextArraySlot_end (by omega)] at here
    exact ⟨prev, List.mem_cons_self, here, Or.inl rfl⟩
  | succ left ih =>
    have lt : start < t.array.length := by omega
    rw [nextArraySlot_step lt] at here
    cases value : t.array.getD start none with
    | none =>
      rw [value] at here
      exact ih visits here (by omega)
    | some v =>
      rw [value] at here
      cases visits with
      | last ends =>
        rw [here] at ends
        cases ends
      | step succ rest =>
        rw [here] at succ
        cases succ
        obtain ⟨a, mem, next, origin⟩ := ih rest (nextKey_index small lt) (by omega)
        refine ⟨a, List.mem_cons_of_mem _ mem, next, Or.inr ?_⟩
        rcases origin with rfl | indexed
        · have value : (Int64.ofNat (start + 1)).toInt = start + 1 := by
            rw [Int64.toInt_ofNat_of_lt (by omega)]
            omega
          exact ⟨_, rfl, by omega, by omega⟩
        · exact indexed

/-- Iterating over a built table visits each field once and ends if and only if the integer 0 is not
a key and the links fit. -/
theorem visits_build (n : Int) (distinct : (fields.map Prod.fst).Nodup) :
    (∃ l, Visits (build n fields).nextKey (.integer 0) l ∧ l.Perm (slots fields)) ↔
      .integer 0 ∉ fields.map Prod.fst ∧ LinksFit (hashItems n fields) := by
  have small := build_small (n := n) distinct
  have full := build_full (n := n) distinct
  constructor
  · rintro ⟨l, visits, perm⟩
    have keys := perm.map Prod.fst
    rw [map_fst_slots] at keys
    have nonzero : .integer 0 ∉ fields.map Prod.fst := fun mem => visits.fresh (keys.mem_iff.mpr mem)
    refine ⟨nonzero, ?_⟩
    by_contra unfit
    simp only [LinksFit, not_forall] at unfit
    obtain ⟨i, large, lt, unmained⟩ := unfit
    have e := entries_hashItems n distinct
    have built := build_hash n distinct
    have length := (hashPart_perm e.distinct e.present).1
    rw [← built] at length
    have missed := e.lookupHash_ne built large lt unmained
    obtain ⟨known, outside⟩ := slot_key (n := n) (i := i) distinct (by omega)
    have visited := keys.mem_iff.mpr known
    have next := nextKey_hash (fun eq => nonzero (eq ▸ known)) outside
    cases search : (build n fields).lookupHash (nodeAt (build n fields).hash i).key with
    | none =>
      obtain ⟨rest, onwards, -⟩ := visits.from_key visited
      rw [search] at next
      exact onwards.next_ne_none next
    | some j =>
      cases j with
      | some j => exact missed j search
      | none =>
        -- the iteration goes back to the first slot, where it has been before
        rw [search] at next
        obtain ⟨a, mem, before, origin⟩ := exists_before_hash small visits (nextKey_start _)
        obtain ⟨kv, first⟩ := exists_first_slot full (by omega)
        rw [first] at before
        have same := visits.next_inj mem (List.mem_cons_of_mem _ visited) before
          (next.trans (congrArg some first))
        subst same
        rcases origin with eq | indexed
        · exact nonzero (eq ▸ known)
        · exact outside indexed
  · rintro ⟨nonzero, fits⟩
    obtain ⟨l, visits, mem⟩ := visits_array small full
      (fun i lt => found_again distinct nonzero fits lt) (nextKey_start (build n fields))
    refine ⟨l, visits, (List.perm_ext_iff_of_nodup visits.nodup.of_map ?_).mpr fun kv => ?_⟩
    · have nodup := distinct
      rw [← map_fst_slots] at nodup
      exact nodup.of_map
    · exact (mem kv).trans (mem_slots_iff distinct kv)

end Starnet.Sharedata
