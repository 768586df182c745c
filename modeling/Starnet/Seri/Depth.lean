import Starnet.Seri.RoundTrip

/-! When `Serialize` accepts its arguments. A cyclic heap unfolds without end, and `pack_one` stops
at the first value that is enclosed in more than `MAX_DEPTH` tables. -/

namespace Starnet.LuaSeri

variable {h : Heap}

/-- `pack_one` has a case for the type. -/
def Value.Supported : Value → Prop
  | object _ _ => False
  | _ => True

/-- The unfolding of the values `vs`: a value is reached through `depth` tables that enclose it. -/
inductive Enclosed (h : Heap) (vs : List Value) : Nat → Value → Prop
  | root {v : Value} (mem : v ∈ vs) : Enclosed h vs 0 v
  | key {depth ref : Nat} {k v : Value} (table : Enclosed h vs depth (.table ref))
      (mem : (k, v) ∈ (h ref).entries) : Enclosed h vs (depth + 1) k
  | value {depth ref : Nat} {k v : Value} (table : Enclosed h vs depth (.table ref))
      (mem : (k, v) ∈ (h ref).entries) : Enclosed h vs (depth + 1) v

namespace Enclosed

theorem mono {vs ws : List Value} (subset : ∀ v ∈ vs, v ∈ ws) {depth : Nat} {v : Value}
    (enclosed : Enclosed h vs depth v) : Enclosed h ws depth v := by
  induction enclosed with
  | root mem => exact .root (subset _ mem)
  | key _ mem ih => exact .key ih mem
  | value _ mem ih => exact .value ih mem

/-- Each root unfolds on its own. -/
theorem of_root {vs : List Value} {depth : Nat} {v : Value} (enclosed : Enclosed h vs depth v) :
    ∃ u ∈ vs, Enclosed h [u] depth v := by
  induction enclosed with
  | root mem => exact ⟨_, mem, .root (List.mem_singleton.mpr rfl)⟩
  | key _ mem ih =>
    obtain ⟨u, root, inner⟩ := ih
    exact ⟨u, root, .key inner mem⟩
  | value _ mem ih =>
    obtain ⟨u, root, inner⟩ := ih
    exact ⟨u, root, .value inner mem⟩

/-- A key or a value of a table unfolds one level deeper in it. -/
theorem inside {ref : Nat} {entry : Value × Value} (mem : entry ∈ (h ref).entries) {u : Value}
    (side : u = entry.1 ∨ u = entry.2) {depth : Nat} {v : Value} (enclosed : Enclosed h [u] depth v) :
    Enclosed h [.table ref] (depth + 1) v := by
  have root : Enclosed h [.table ref] 0 (.table ref) := .root (List.mem_singleton.mpr rfl)
  induction enclosed with
  | root mem' =>
    obtain rfl := List.mem_singleton.mp mem'
    rcases side with rfl | rfl
    · exact .key root mem
    · exact .value root mem
  | key _ mem' ih => exact .key ih mem'
  | value _ mem' ih => exact .value ih mem'

/-- What a table unfolds to is the table, or is reached through one of its fields. -/
theorem cases_table {ref depth : Nat} {v : Value} (enclosed : Enclosed h [.table ref] depth v) :
    (depth = 0 ∧ v = .table ref) ∨ ∃ entry ∈ (h ref).entries, ∃ u, (u = entry.1 ∨ u = entry.2) ∧
      ∃ depth', depth = depth' + 1 ∧ Enclosed h [u] depth' v := by
  have inner {u : Value} : Enclosed h [u] 0 u := .root (List.mem_singleton.mpr rfl)
  induction enclosed with
  | root mem => exact Or.inl ⟨rfl, List.mem_singleton.mp mem⟩
  | key _ mem ih =>
    rcases ih with ⟨rfl, eq⟩ | ⟨entry, mem', u, side, depth', rfl, enclosed⟩
    · cases eq
      exact Or.inr ⟨_, mem, _, Or.inl rfl, 0, rfl, inner⟩
    · exact Or.inr ⟨entry, mem', u, side, depth' + 1, rfl, .key enclosed mem⟩
  | value _ mem ih =>
    rcases ih with ⟨rfl, eq⟩ | ⟨entry, mem', u, side, depth', rfl, enclosed⟩
    · cases eq
      exact Or.inr ⟨_, mem, _, Or.inr rfl, 0, rfl, inner⟩
    · exact Or.inr ⟨entry, mem', u, side, depth' + 1, rfl, .value enclosed mem⟩

/-- Only tables enclose anything. -/
theorem of_scalar {u : Value} (scalar : ∀ ref, u ≠ .table ref) {depth : Nat} {v : Value}
    (enclosed : Enclosed h [u] depth v) : depth = 0 ∧ v = u := by
  induction enclosed with
  | root mem => exact ⟨rfl, List.mem_singleton.mp mem⟩
  | key _ _ ih => exact absurd ih.2.symm (scalar _)
  | value _ _ ih => exact absurd ih.2.symm (scalar _)

end Enclosed

/-! ### Packing -/

theorem mapM_isOk {ε α β : Type} {f : α → Except ε β} {xs : List α} :
    (∃ ys, xs.mapM f = .ok ys) ↔ ∀ x ∈ xs, ∃ y, f x = .ok y := by
  induction xs with
  | nil => exact ⟨fun _ _ mem => absurd mem List.not_mem_nil, fun _ => ⟨[], rfl⟩⟩
  | cons x xs ih =>
    rw [List.forall_mem_cons, ← ih]
    constructor
    · rintro ⟨ys, eq⟩
      rw [List.mapM_cons] at eq
      obtain ⟨y, first, eq⟩ := bind_eq_ok eq
      obtain ⟨ys', others, -⟩ := bind_eq_ok eq
      exact ⟨⟨y, first⟩, ys', others⟩
    · rintro ⟨⟨y, first⟩, ys, others⟩
      refine ⟨y :: ys, ?_⟩
      rw [List.mapM_cons, first]
      change (xs.mapM f >>= _) = _
      rw [others]
      rfl

section

variable {pack : Value → Except String (List UInt8)}

theorem packField_isOk {k v : Value} :
    (∃ block, (do let key ← pack k; let value ← pack v; return key ++ value) = .ok block) ↔
      (∃ key, pack k = .ok key) ∧ ∃ value, pack v = .ok value := by
  constructor
  · rintro ⟨block, eq⟩
    obtain ⟨key, first, eq⟩ := bind_eq_ok eq
    obtain ⟨value, second, -⟩ := bind_eq_ok eq
    exact ⟨⟨key, first⟩, value, second⟩
  · rintro ⟨⟨key, first⟩, value, second⟩
    rw [first, second]
    exact ⟨_, rfl⟩

/-- The calls of `pack_one` in `wb_table`. -/
theorem wbTable_isOk {t : Table} : (∃ bytes, wbTable pack t = .ok bytes) ↔
    (∀ v ∈ arrayValues t, ∃ block, pack v = .ok block) ∧
      ∀ field ∈ hashFields t, (∃ key, pack field.1 = .ok key) ∧
        ∃ value, pack field.2 = .ok value := by
  rw [← mapM_isOk]
  have fields : (∃ blocks, (hashFields t).mapM (fun entry : Value × Value => do
      let key ← pack entry.1
      let value ← pack entry.2
      return key ++ value) = .ok blocks) ↔ _ := mapM_isOk
  simp only [packField_isOk] at fields
  rw [← fields]
  constructor
  · rintro ⟨bytes, eq⟩
    obtain ⟨array, packed, eq⟩ := bind_eq_ok eq
    obtain ⟨hash, packed', -⟩ := bind_eq_ok eq
    exact ⟨⟨array, packed⟩, hash, packed'⟩
  · rintro ⟨⟨array, packed⟩, hash, packed'⟩
    refine ⟨wbTableHeader (arraySize t) ++ array.flatten ++ hash.flatten ++ wbNil, ?_⟩
    simp only [wbTable, packed, packed']
    rfl

/-- A table is packed when its fields are. The holes of the array part need no condition of their
own: a table with an array part has a field. -/
theorem wbTable_isOk_iff {t : Table}
    (plain : (∃ v bytes, pack v = .ok bytes) → (∃ bytes, pack .nil = .ok bytes) ∧
      ∀ x, ∃ bytes, pack (.integer x) = .ok bytes) :
    (∃ bytes, wbTable pack t = .ok bytes) ↔ ∀ entry ∈ t.entries,
      (∃ key, pack entry.1 = .ok key) ∧ ∃ value, pack entry.2 = .ok value := by
  have perm {entry : Value × Value} : entry ∈ t.entries ↔
      entry ∈ arrayFields 1 (arrayValues t) ∨ entry ∈ hashFields t :=
    (entries_perm t).mem_iff.trans List.mem_append
  rw [wbTable_isOk]
  constructor
  · rintro ⟨array, hash⟩ ⟨k, v⟩ mem
    rcases perm.mp mem with mem | mem
    · obtain ⟨j, get, -, rfl⟩ := mem_arrayFields.mp mem
      have value := array v (List.mem_of_getElem? get)
      exact ⟨(plain ⟨v, value⟩).2 _, value⟩
    · exact hash _ mem
  · intro fields
    refine ⟨fun v mem => ?_, fun field mem => fields _ (List.mem_of_mem_filter mem)⟩
    obtain ⟨j, get⟩ := List.mem_iff_getElem?.mp mem
    by_cases nil : v = .nil
    · -- The border is positive, so that its field is packed.
      have size := (arrayValues_getElem?.mp get).1
      have border : t.rawlen ≠ 0 := by
        intro zero
        rw [arraySize, zero] at size
        exact absurd size (Nat.not_lt_zero _)
      have some := t.present.resolve_left border
      have value := (fields _ ((rawget_eq_iff t.distinct some).mp rfl)).2
      exact nil ▸ (plain ⟨_, value⟩).1
    · have field := perm.mpr (Or.inl (mem_arrayFields.mpr ⟨j, get, nil, rfl⟩))
      exact (fields _ field).2

end

/-- Without a level left nothing is packed; with one, every value but a table is. -/
theorem packOne_scalar {levels : Nat} {v : Value} (scalar : ∀ ref, v ≠ .table ref) :
    (∃ bytes, packOne h levels v = .ok bytes) ↔ v.Supported ∧ 0 < levels := by
  cases levels with
  | zero =>
    constructor
    · rintro ⟨_, eq⟩
      cases eq
    · exact fun valid => absurd valid.2 (Nat.lt_irrefl 0)
  | succ levels =>
    have positive : 0 < levels + 1 := Nat.succ_pos levels
    cases v with
    | table ref => exact absurd rfl (scalar ref)
    | object type ref =>
      constructor
      · rintro ⟨_, eq⟩
        cases eq
      · exact fun valid => valid.1.elim
    | nil | boolean | integer | number | string | lightuserdata =>
      exact ⟨fun _ => ⟨trivial, positive⟩, fun _ => ⟨_, rfl⟩⟩

/-- `pack_one` accepts a value when all that it unfolds to is supported and within the levels. -/
theorem packOne_isOk_iff : ∀ {levels : Nat} {v : Value},
    (∃ bytes, packOne h levels v = .ok bytes) ↔
      ∀ depth w, Enclosed h [v] depth w → w.Supported ∧ depth < levels
  | levels, v => by
    have root : Enclosed h [v] 0 v := .root (List.mem_singleton.mpr rfl)
    by_cases scalar : ∀ ref, v ≠ .table ref
    · rw [packOne_scalar scalar]
      refine ⟨fun valid depth w enclosed => ?_, fun all => all 0 v root⟩
      obtain ⟨rfl, rfl⟩ := enclosed.of_scalar scalar
      exact valid
    · push Not at scalar
      obtain ⟨ref, rfl⟩ := scalar
      cases levels with
      | zero =>
        constructor
        · rintro ⟨_, eq⟩
          cases eq
        · exact fun all => absurd (all 0 _ root).2 (Nat.lt_irrefl 0)
      | succ levels =>
        have plain : (∃ v bytes, packOne h levels v = .ok bytes) →
            (∃ bytes, packOne h levels .nil = .ok bytes) ∧
              ∀ x, ∃ bytes, packOne h levels (.integer x) = .ok bytes := by
          rintro ⟨v, bytes, eq⟩
          cases levels with
          | zero => cases eq
          | succ levels => exact ⟨⟨_, rfl⟩, fun x => ⟨_, rfl⟩⟩
        change (∃ bytes, wbTable (packOne h levels) (h ref) = .ok bytes) ↔ _
        rw [wbTable_isOk_iff plain]
        constructor
        · intro fields depth w enclosed
          obtain ⟨rfl, rfl⟩ | ⟨entry, mem, u, side, depth', rfl, inner⟩ := enclosed.cases_table
          · exact ⟨trivial, Nat.succ_pos levels⟩
          · have packed : ∃ bytes, packOne h levels u = .ok bytes := by
              rcases side with rfl | rfl
              · exact (fields entry mem).1
              · exact (fields entry mem).2
            obtain ⟨supported, lt⟩ := packOne_isOk_iff.mp packed depth' w inner
            exact ⟨supported, Nat.succ_lt_succ lt⟩
        · intro all entry mem
          have side {u : Value} (side : u = entry.1 ∨ u = entry.2) :
              ∃ bytes, packOne h levels u = .ok bytes := by
            refine packOne_isOk_iff.mpr fun depth w inner => ?_
            obtain ⟨supported, lt⟩ := all (depth + 1) w (inner.inside mem side)
            exact ⟨supported, Nat.lt_of_succ_lt_succ lt⟩
          exact ⟨side (Or.inl rfl), side (Or.inr rfl)⟩

/-- `Serialize` accepts its arguments when it accepts each of them. -/
theorem serialize_isOk_iff {vs : List Value} : (∃ bytes, serialize h vs = .ok bytes) ↔
    ∀ depth v, Enclosed h vs depth v → v.Supported ∧ depth ≤ maxDepth := by
  have packed : (∃ bytes, serialize h vs = .ok bytes) ↔
      ∃ blocks, vs.mapM (packOne h (maxDepth + 1)) = .ok blocks := by
    constructor
    · rintro ⟨bytes, eq⟩
      obtain ⟨blocks, eq, -⟩ := bind_eq_ok eq
      exact ⟨blocks, eq⟩
    · rintro ⟨blocks, eq⟩
      exact ⟨blocks.flatten, by rw [serialize, eq]; rfl⟩
  rw [packed, mapM_isOk]
  simp only [packOne_isOk_iff, Nat.lt_succ_iff]
  constructor
  · intro each depth v enclosed
    obtain ⟨u, mem, inner⟩ := enclosed.of_root
    exact each u mem depth v inner
  · intro all u mem depth v inner
    refine all depth v (inner.mono fun w single => ?_)
    rwa [List.mem_singleton.mp single]

end Starnet.LuaSeri
