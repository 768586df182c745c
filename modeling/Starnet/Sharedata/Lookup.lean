import Starnet.Sharedata.Fill

/-! Lookups in a built table. A key is found along the chain of its main slot, or of another main
slot whose chain passes there; the links of the chains reach the slots below `2 ^ 31` only. -/

namespace Starnet.Sharedata

open Chain SharedTable

variable {V : Type} {items : List (Key × Option V)} {t : SharedTable V} {kv : Key × Option V}

/-! ### The hash part -/

theorem lookupChain_eq_walk (hash : List (Node V)) (key : Key) (fuel i : Nat) :
    lookupChain hash key fuel i =
      walk (linkOf hash) (fun i => decide (key = (nodeAt hash i).key)) fuel i := by
  induction fuel generalizing i with
  | zero => rfl
  | succ fuel ih =>
    rw [lookupChain, walk, linkOf]
    by_cases here : key = (nodeAt hash i).key
    · simp [← here]
    · by_cases last : (nodeAt hash i).next < 0
      · simp [here, last]
      · simp [here, last, ih]

/-- The entries of the hash part. -/
structure Entries (items : List (Key × Option V)) : Prop where
  distinct : (items.map Prod.fst).Nodup
  present : ∀ kv ∈ items, kv.2.isSome = true

namespace Entries

theorem entry_mem (e : Entries items) {i : Nat} (lt : i < items.length) :
    (nodeAt (hashPart items) i).entry ∈ items := by
  obtain ⟨length, perm⟩ := hashPart_perm e.distinct e.present
  exact perm.mem_iff.mp (mem_entries.mpr ⟨i, length ▸ lt, rfl⟩)

/-- A key is in one slot. -/
theorem slot_unique (e : Entries items) {i j : Nat} (hi : i < items.length) (hj : j < items.length)
    (same : (nodeAt (hashPart items) i).key = (nodeAt (hashPart items) j).key) : i = j := by
  obtain ⟨length, perm⟩ := hashPart_perm e.distinct e.present
  have nodup := ((perm.map Prod.fst).nodup_iff).mpr e.distinct
  rw [List.map_map] at nodup
  rw [nodeAt_eq_getElem (length ▸ hi), nodeAt_eq_getElem (length ▸ hj)] at same
  have mapped : ((hashPart items).map (Prod.fst ∘ Node.entry)).length = items.length := by
    rw [List.length_map, length]
  refine (@List.Nodup.getElem_inj_iff _ _ nodup i (mapped ▸ hi) j (mapped ▸ hj)).mp ?_
  rw [List.getElem_map, List.getElem_map]
  exact same

/-- The links from the main slot of a key, in the table or not, end; they pass the slot of the key.
-/
theorem chain (e : Entries items) (fits : LinksFit items) (positive : 0 < items.length) (key : Key) :
    ∃ l, Path (linkOf (hashPart items)) (some (mainSlot items.length key)) l ∧
      (∀ i ∈ l, i < items.length) ∧ l.length ≤ items.length ∧
      (key ∈ items.map Prod.fst → (∃ i ∈ l, (nodeAt (hashPart items) i).key = key) ∧
        ((nodeAt (hashPart items) (mainSlot items.length key)).nocolliding = true →
          l = [mainSlot items.length key])) := by
  by_cases known : key ∈ items.map Prod.fst
  · obtain ⟨kv, mem, rfl⟩ := List.mem_map.mp known
    obtain ⟨l, threaded⟩ := hashPart_threaded e.distinct e.present fits mem
    exact ⟨l, threaded.path, threaded.slot, length_le threaded.nodup threaded.slot,
      fun _ => ⟨threaded.found, threaded.alone⟩⟩
  · have lt := mainSlot_lt positive key
    obtain ⟨l, threaded⟩ := hashPart_threaded e.distinct e.present fits (e.entry_mem lt)
    obtain ⟨i, mem, here⟩ := threaded.found
    rw [e.slot_unique (threaded.slot i mem) lt here] at mem
    obtain ⟨l', path, suffix⟩ := threaded.path.suffix mem
    have slot : ∀ j ∈ l', j < items.length := fun j mem => threaded.slot j (suffix.subset mem)
    exact ⟨l', path, slot, length_le (threaded.nodup.sublist suffix.sublist) slot,
      fun mem => absurd mem known⟩

theorem lookupHash_built (e : Entries items) (built : t.hash = hashPart items)
    (positive : 0 < items.length) (key : Key) :
    t.lookupHash key =
      if key.hash ≠ (nodeAt t.hash (mainSlot items.length key)).key.hash ∧
          (nodeAt t.hash (mainSlot items.length key)).nocolliding = true then some none
      else walk (linkOf t.hash) (fun i => decide (key = (nodeAt t.hash i).key)) items.length
        (mainSlot items.length key) := by
  have length := (hashPart_perm e.distinct e.present).1
  rw [← built] at length
  rw [lookupHash, length, if_neg (Nat.pos_iff_ne_zero.mp positive), ← lookupChain_eq_walk]

/-- The search for a key finds its slot, or ends. -/
theorem lookupHash_eq (e : Entries items) (fits : LinksFit items) (built : t.hash = hashPart items)
    (key : Key) :
    (∃ i < items.length, t.lookupHash key = some (some i) ∧ (nodeAt t.hash i).key = key) ∨
      (t.lookupHash key = some none ∧ key ∉ items.map Prod.fst) := by
  by_cases positive : 0 < items.length
  · rw [e.lookupHash_built built positive, built]
    obtain ⟨l, path, slot, short, complete⟩ := e.chain fits positive key
    split
    · rename_i quick
      refine Or.inr ⟨rfl, fun mem => ?_⟩
      obtain ⟨⟨i, mem', here⟩, alone⟩ := complete mem
      rw [alone quick.2, List.mem_singleton] at mem'
      rw [← mem', here] at quick
      exact quick.1 rfl
    · rw [walk_eq_find path short]
      cases found : l.find? fun i => decide (key = (nodeAt (hashPart items) i).key) with
      | some i =>
        have here := List.find?_some found
        exact Or.inl ⟨i, slot i (List.mem_of_find?_eq_some found), rfl,
          (of_decide_eq_true here).symm⟩
      | none =>
        refine Or.inr ⟨rfl, fun mem => ?_⟩
        obtain ⟨⟨i, mem', here⟩, -⟩ := complete mem
        rw [List.find?_eq_none] at found
        exact found i mem' (decide_eq_true here.symm)
  · have length := (hashPart_perm e.distinct e.present).1
    refine Or.inr ⟨if_pos (by rw [built]; omega), fun mem => ?_⟩
    obtain ⟨kv, mem, -⟩ := List.mem_map.mp mem
    exact positive (List.length_pos_of_mem mem)

/-- No search ends in a slot that is no main slot and that no link can name. -/
theorem lookupHash_ne (e : Entries items) (built : t.hash = hashPart items) {i : Nat}
    (large : 2 ^ 31 ≤ i) (lt : i < items.length)
    (unmained : ¬∃ kv ∈ items, mainSlot items.length kv.1 = i) (j : Nat) :
    t.lookupHash (nodeAt t.hash i).key ≠ some (some j) := by
  intro found
  have positive : 0 < items.length := by omega
  rw [e.lookupHash_built built positive, built] at found
  split at found
  · cases found
  · obtain ⟨here, origin⟩ := walk_found found
    have same := of_decide_eq_true here
    rcases origin with rfl | ⟨k, link⟩
    · have eq := e.slot_unique lt (mainSlot_lt positive _) same
      exact unmained ⟨_, e.entry_mem lt, eq.symm⟩
    · have small := link_lt link
      have eq := e.slot_unique lt (by omega) same
      omega

end Entries

/-! ### Whole tables -/

/-- Whether a key goes to an array part of `n` values. -/
def inArray (n : Int) : Key → Bool
  | .integer x => 0 < x.toInt ∧ x.toInt ≤ n
  | .string _ => false

namespace SharedTable

/-- The table gets one field, with `SetArray` for the keys from 1 to `n`, else with `AddHash`. -/
def add (n : Int) (t : SharedTable V) (field : Key × V) : SharedTable V :=
  match field.1 with
  | .integer x =>
    if inArray n (.integer x) then t.setArray x.toInt.toNat (some field.2)
    else t.addHash (.integer x) (some field.2)
  | .string s => t.addHash (.string s) (some field.2)

/-- A table built from fields in any order. -/
def build (n : Int) (fields : List (Key × V)) : SharedTable V :=
  (fields.foldl (add n) {}).finish

end SharedTable

/-- The entries that go to the hash part. -/
def hashItems (n : Int) (fields : List (Key × V)) : List (Key × Option V) :=
  (fields.filter fun field => !inArray n field.1).map fun field => (field.1, some field.2)

variable {n : Int} {fields done : List (Key × V)} {field : Key × V}

theorem lookup_eq_some {key : Key} {v : V} (distinct : (fields.map Prod.fst).Nodup) :
    fields.lookup key = some v ↔ (key, v) ∈ fields := by
  induction fields with
  | nil => simp
  | cons field fields ih =>
    obtain ⟨fresh, distinct⟩ := List.nodup_cons.mp distinct
    rw [List.lookup_cons, List.mem_cons]
    by_cases same : key = field.1
    · have other : (key, v) ∉ fields := fun mem => fresh (same ▸ List.mem_map_of_mem mem)
      rw [or_iff_left other, same, beq_self_eq_true]
      simp [Prod.ext_iff, eq_comm]
    · rw [beq_eq_false_iff_ne.mpr same]
      simp [ih distinct, same, Prod.ext_iff]

theorem lookup_concat {key : Key} (fresh : field.1 ∉ done.map Prod.fst) :
    (done ++ [field]).lookup key = if key = field.1 then some field.2 else done.lookup key := by
  obtain ⟨k, v⟩ := field
  rw [List.lookup_append, List.lookup_cons, List.lookup_nil]
  by_cases same : key = k
  · have none : done.lookup key = none := by
      rw [List.lookup_eq_none_iff]
      intro field mem
      rw [bne_iff_ne]
      rintro rfl
      exact fresh (List.mem_map.mpr ⟨field, mem, same⟩)
    rw [none, same]
    simp
  · rw [beq_eq_false_iff_ne.mpr same, if_neg same]
    simp

theorem setArray_length {index : Nat} (positive : 0 < index) (v : Option V) :
    (t.setArray index v).array.length = max t.array.length index := by
  rw [setArray, if_pos positive]
  by_cases longer : index > t.array.length
  · simp [longer]
    omega
  · simp [longer]
    omega

theorem setArray_getD {index : Nat} (positive : 0 < index) (v : Option V) (j : Nat) :
    (t.setArray index v).array.getD j none = if j + 1 = index then v else t.array.getD j none := by
  have length := setArray_length (t := t) positive v
  rw [setArray, if_pos positive] at length ⊢
  simp only [List.length_set, List.getD_eq_getElem?_getD, List.getElem?_set] at length ⊢
  rw [length]
  by_cases here : j + 1 = index
  · rw [if_pos (by omega), if_pos (by omega), if_pos here, Option.getD_some]
  · rw [if_neg (by omega), if_neg here]
    by_cases longer : index > t.array.length
    · rw [if_pos longer, List.getElem?_append]
      by_cases lt : j < t.array.length
      · rw [if_pos lt]
      · rw [if_neg lt, List.getElem?_replicate, List.getElem?_eq_none (by omega)]
        split <;> rfl
    · rw [if_neg longer]

theorem add_integer (x : Int64) (v : V) : t.add n (.integer x, v) =
    if inArray n (.integer x) then t.setArray x.toInt.toNat (some v)
    else t.addHash (.integer x) (some v) := rfl

/-- What the fields of `done` have made of an empty table. -/
structure Building (n : Int) (done : List (Key × V)) (t : SharedTable V) : Prop where
  hash : t.hash = []
  pending : t.pending = hashItems n done
  small : t.array.length < 2 ^ 63
  short : t.array.length = 0 ∨ (t.array.length : Int) ≤ n
  array : ∀ x : Int64, inArray n (.integer x) = true →
    t.array.getD (x.toInt.toNat - 1) none = done.lookup (.integer x)

theorem add_outside (outside : inArray n field.1 = false) :
    t.add n field = t.addHash field.1 (some field.2) := by
  obtain ⟨key, v⟩ := field
  cases key with
  | string s => rfl
  | integer x => rw [add_integer, if_neg (Bool.eq_false_iff.mp outside)]

theorem Building.add (b : Building n done t) (fresh : field.1 ∉ done.map Prod.fst) :
    Building n (done ++ [field]) (t.add n field) := by
  cases inside : inArray n field.1 with
  | false =>
    rw [add_outside inside]
    refine ⟨b.hash, ?_, b.small, b.short, fun x here => ?_⟩
    · rw [addHash, b.pending, hashItems, hashItems, List.filter_append, List.map_append]
      simp [inside]
    · have other : .integer x ≠ field.1 := fun eq => by
        rw [← eq, here] at inside
        cases inside
      rw [lookup_concat fresh, if_neg other]
      exact b.array x here
  | true =>
    obtain ⟨key, v⟩ := field
    cases key with
    | string s => cases inside
    | integer x =>
      have range := of_decide_eq_true inside
      have below := x.toInt_lt
      have positive : 0 < x.toInt.toNat := by omega
      rw [add_integer, if_pos inside]
      have length := setArray_length (t := t) positive (some v)
      refine ⟨?_, ?_, ?_, ?_, fun y here => ?_⟩
      · rw [setArray, if_pos positive]
        exact b.hash
      · rw [setArray, if_pos positive, hashItems, List.filter_append, List.map_append]
        simp [inside, b.pending, hashItems]
      · have small := b.small
        omega
      · have short := b.short
        omega
      · have range' := of_decide_eq_true here
        rw [setArray_getD positive, lookup_concat fresh, b.array y here]
        have same : y.toInt.toNat - 1 + 1 = x.toInt.toNat ↔ Key.integer y = .integer x := by
          rw [Key.integer.injEq, ← Int64.toInt_inj]
          omega
        by_cases eq : Key.integer y = .integer x
        · rw [if_pos (same.mpr eq), if_pos eq]
        · rw [if_neg (mt same.mp eq), if_neg eq]

theorem Building.run (b : Building n done t) (distinct : ((done ++ fields).map Prod.fst).Nodup) :
    Building n (done ++ fields) (fields.foldl (SharedTable.add n) t) := by
  induction fields generalizing done t with
  | nil =>
    rw [List.append_nil]
    exact b
  | cons field fields ih =>
    rw [List.append_cons] at distinct ⊢
    refine ih (b.add fun mem => ?_) distinct
    rw [List.map_append, List.nodup_append, List.map_append, List.nodup_append] at distinct
    exact distinct.1.2.2 _ mem _ (List.mem_singleton.mpr rfl) rfl

theorem building (n : Int) (distinct : (fields.map Prod.fst).Nodup) :
    Building n fields (fields.foldl (SharedTable.add n) {}) :=
  have empty : Building n [] ({} : SharedTable V) :=
    ⟨rfl, rfl, Nat.two_pow_pos 63, Or.inl rfl, fun _ _ => rfl⟩
  empty.run distinct

theorem mem_hashItems {n : Int} {key : Key} {v : Option V} : (key, v) ∈ hashItems n fields ↔
    inArray n key = false ∧ ∃ v', (key, v') ∈ fields ∧ some v' = v := by
  rw [hashItems, List.mem_map]
  constructor
  · rintro ⟨⟨key', v'⟩, mem, eq⟩
    rw [List.mem_filter, Bool.not_eq_true'] at mem
    cases eq
    exact ⟨mem.2, v', mem.1, rfl⟩
  · rintro ⟨outside, v', mem, rfl⟩
    refine ⟨(key, v'), ?_, rfl⟩
    rw [List.mem_filter, Bool.not_eq_true']
    exact ⟨mem, outside⟩

theorem entries_hashItems (n : Int) (distinct : (fields.map Prod.fst).Nodup) :
    Entries (hashItems n fields) := by
  constructor
  · rw [hashItems, List.map_map]
    exact distinct.sublist (List.Sublist.map _ List.filter_sublist)
  · intro kv mem
    obtain ⟨field, -, rfl⟩ := List.mem_map.mp mem
    rfl

theorem build_hash (n : Int) (distinct : (fields.map Prod.fst).Nodup) :
    (build n fields).hash = hashPart (hashItems n fields) := by
  have b := building n distinct
  rw [build, finish]
  split
  · rename_i empty
    rw [b.hash, ← b.pending, empty]
    rfl
  · rw [b.pending]
    rfl

theorem build_array (n : Int) (fields : List (Key × V)) :
    (build n fields).array = (fields.foldl (SharedTable.add n) {}).array := by
  rw [build, finish]
  split <;> rfl

/-- The key of a value, or of a hole, in the array part. -/
def Indexed (t : SharedTable V) (key : Key) : Prop :=
  ∃ x : Int64, key = .integer x ∧ 0 < x.toInt ∧ x.toInt ≤ t.array.length

theorem lookup_indexed {x : Int64} (indexed : Indexed t (.integer x)) :
    t.lookup (.integer x) = some (some (t.array.getD (x.toInt.toNat - 1) none)) := by
  obtain ⟨y, eq, range⟩ := indexed
  cases eq
  rw [lookup, lookupArray, if_pos range, List.getD_eq_getElem?_getD,
    List.getElem?_eq_getElem (by omega : x.toInt.toNat - 1 < t.array.length)]
  rfl

theorem lookup_of_not_indexed {key : Key} (outside : ¬Indexed t key) :
    t.lookup key = (t.lookupHash key).map fun found =>
      found.map fun i => (nodeAt t.hash i).value := by
  cases key with
  | string s => rfl
  | integer x =>
    have none : t.lookupArray x = none := by
      rw [lookupArray, if_neg fun range => outside ⟨x, rfl, range⟩]
    rw [lookup, none]

theorem Indexed.inArray {key : Key} (indexed : Indexed (build n fields) key)
    (distinct : (fields.map Prod.fst).Nodup) : inArray n key = true := by
  obtain ⟨x, rfl, range⟩ := indexed
  have short := (building n distinct).short
  rw [← build_array] at short
  exact decide_eq_true ⟨range.1, by omega⟩

/-- The value of a key that could be in the array part. -/
theorem build_getD (distinct : (fields.map Prod.fst).Nodup) {x : Int64}
    (inside : inArray n (.integer x) = true) :
    (build n fields).array.getD (x.toInt.toNat - 1) none = fields.lookup (.integer x) := by
  rw [build_array]
  exact (building n distinct).array x inside

/-- A key outside of both parts has no value. -/
theorem lookup_eq_none (distinct : (fields.map Prod.fst).Nodup) {key : Key}
    (outside : ¬Indexed (build n fields) key)
    (unhashed : key ∉ (hashItems n fields).map Prod.fst) : fields.lookup key = none := by
  cases value : fields.lookup key with
  | none => rfl
  | some v =>
    exfalso
    cases inside : inArray n key with
    | false =>
      have mem := (lookup_eq_some distinct).mp value
      exact unhashed (List.mem_map.mpr ⟨_, mem_hashItems.mpr ⟨inside, v, mem, rfl⟩, rfl⟩)
    | true =>
      cases key with
      | string s => cases inside
      | integer x =>
        have range := of_decide_eq_true inside
        have get := build_getD distinct inside
        have longer : ¬x.toInt ≤ (build n fields).array.length :=
          fun le => outside ⟨x, rfl, range.1, le⟩
        rw [value, List.getD_eq_getElem?_getD, List.getElem?_eq_none (by omega)] at get
        cases get

/-- The table gives the value of each of its fields, and nothing or nil for the other keys. -/
def Correct (t : SharedTable V) (fields : List (Key × V)) : Prop :=
  ∀ key, ∃ found, t.lookup key = some found ∧ found.join = fields.lookup key

/-- An entry in a slot that no link can name, and that is not its main slot, is not found. -/
theorem linksFit_of_correct (distinct : (fields.map Prod.fst).Nodup)
    (correct : Correct (build n fields) fields) : LinksFit (hashItems n fields) := by
  have e := entries_hashItems n distinct
  have built := build_hash n distinct
  by_contra unfit
  simp only [LinksFit, not_forall] at unfit
  obtain ⟨i, large, lt, unmained⟩ := unfit
  have missed := e.lookupHash_ne built large lt unmained
  have mem := e.entry_mem lt
  rw [← built] at mem
  obtain ⟨outside, v, mem, -⟩ := mem_hashItems.mp mem
  obtain ⟨found, result, value⟩ := correct (nodeAt (build n fields).hash i).key
  rw [lookup_of_not_indexed fun indexed => by
    rw [indexed.inArray distinct] at outside
    cases outside] at result
  rw [(lookup_eq_some distinct).mpr mem] at value
  cases search : (build n fields).lookupHash (nodeAt (build n fields).hash i).key with
  | none =>
    rw [search] at result
    cases result
  | some j =>
    cases j with
    | none =>
      rw [search] at result
      cases result
      cases value
    | some j => exact missed j search

theorem correct_of_linksFit (distinct : (fields.map Prod.fst).Nodup)
    (fits : LinksFit (hashItems n fields)) : Correct (build n fields) fields := by
  have e := entries_hashItems n distinct
  have built := build_hash n distinct
  intro key
  by_cases indexed : Indexed (build n fields) key
  · obtain ⟨x, rfl, -⟩ := id indexed
    exact ⟨_, lookup_indexed indexed, build_getD distinct (indexed.inArray distinct)⟩
  · rw [lookup_of_not_indexed indexed]
    rcases e.lookupHash_eq fits built key with ⟨i, lt, search, rfl⟩ | ⟨search, unhashed⟩
    · have mem := e.entry_mem lt
      rw [← built] at mem
      obtain ⟨-, v, mem, value⟩ := mem_hashItems.mp mem
      refine ⟨_, congrArg _ search, ?_⟩
      rw [(lookup_eq_some distinct).mpr mem, value]
      rfl
    · refine ⟨_, congrArg _ search, ?_⟩
      rw [lookup_eq_none distinct indexed unhashed]
      rfl

/-- A built table is the map of its fields if and only if the links of its chains fit. -/
theorem lookup_build (n : Int) (distinct : (fields.map Prod.fst).Nodup) :
    Correct (build n fields) fields ↔ LinksFit (hashItems n fields) :=
  ⟨linksFit_of_correct distinct, correct_of_linksFit distinct⟩

theorem linksFit_of_length_le (le : items.length ≤ 2 ^ 31) : LinksFit items := by
  intro i large lt
  omega

/-- Three keys with the same hash, and a hole in the array part. -/
def collidingFields : List (Key × Bool) :=
  [(.integer 5161, true), (.integer 2, false), (.string [97, 98], true), (.integer 4294972457, false)]

theorem lookup_build_colliding : Correct (build 2 collidingFields) collidingFields :=
  (lookup_build 2 (by decide)).mpr (linksFit_of_length_le (by decide))

/-- More fields than links can tell apart: the last one shares main slot 0. -/
def wideFields : List (Key × Unit) :=
  (List.range (2 ^ 31) ++ [2 ^ 31 + 1]).map fun i => (.integer (Int64.ofNat i), ())

theorem wide_lt {i : Nat} (mem : i ∈ List.range (2 ^ 31) ++ [2 ^ 31 + 1]) :
    i < 2 ^ 31 ∨ i = 2 ^ 31 + 1 := by
  rcases List.mem_append.mp mem with mem | mem
  · exact Or.inl (List.mem_range.mp mem)
  · exact Or.inr (List.mem_singleton.mp mem)

theorem wideFields_distinct : (wideFields.map Prod.fst).Nodup := by
  rw [wideFields, List.map_map]
  refine List.Nodup.map_on (fun i hi j hj eq => ?_) ?_
  · have range := wide_lt hi
    have range' := wide_lt hj
    have value := congrArg Int64.toInt (Key.integer.inj eq)
    rw [Int64.toInt_ofNat_of_lt (by omega), Int64.toInt_ofNat_of_lt (by omega)] at value
    omega
  · rw [List.nodup_append]
    refine ⟨List.nodup_range, List.nodup_singleton _, fun i hi j hj => ?_⟩
    rw [List.mem_range] at hi
    rw [List.mem_singleton.mp hj]
    omega

theorem wideFields_length : wideFields.length = 2 ^ 31 + 1 := by
  rw [wideFields, List.length_map, List.length_append, List.length_range, List.length_singleton]

theorem hashItems_wide : hashItems 0 wideFields = wideFields.map fun field => (field.1, some field.2) := by
  rw [hashItems, List.filter_eq_self.mpr]
  intro field mem
  obtain ⟨i, -, rfl⟩ := List.mem_map.mp mem
  rw [Bool.not_eq_true']
  exact decide_eq_false fun range => by omega

theorem mainSlot_ofNat (size : Nat) {i : Nat} (lt : i < 2 ^ 32) :
    mainSlot size (.integer (Int64.ofNat i)) = i % size := by
  rw [mainSlot, Key.hash, Int64.toUInt64_ofNat', UInt64.toUInt32_ofNat', UInt32.toNat_ofNat_of_lt' lt]

theorem not_lookup_wide : ¬∀ (n : Nat) (fields : List (Key × Unit)), (fields.map Prod.fst).Nodup →
    (n = 0 ∨ .integer (Int64.ofNat n) ∈ fields.map Prod.fst) → Correct (build n fields) fields := by
  intro correct
  have fits := linksFit_of_correct wideFields_distinct
    (correct 0 wideFields wideFields_distinct (Or.inl rfl))
  rw [Int.natCast_zero] at fits
  have length : (hashItems 0 wideFields).length = 2 ^ 31 + 1 := by
    rw [hashItems_wide, List.length_map, wideFields_length]
  obtain ⟨kv, mem, main⟩ := fits (2 ^ 31) (by omega) (by omega)
  rw [length] at main
  rw [hashItems_wide, wideFields, List.map_map] at mem
  obtain ⟨i, index, rfl⟩ := List.mem_map.mp mem
  have range := wide_lt index
  have slot := mainSlot_ofNat (2 ^ 31 + 1) (by omega : i < 2 ^ 32)
  rw [Function.comp_apply, slot] at main
  rcases range with lt | rfl
  · rw [Nat.mod_eq_of_lt (by omega)] at main
    omega
  · rw [Nat.mod_self] at main
    omega

end Starnet.Sharedata
