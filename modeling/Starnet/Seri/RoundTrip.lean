import Starnet.Seri.Scalars
import Mathlib.Data.List.Perm.Basic

/-! `Unserialize` gives back what `Serialize` is given. The array part of a table is decoded first,
then its other fields, so the fields of a decoded table are those of the original one in another
order. -/

namespace Starnet.LuaSeri

variable {h : Heap}

/-! ### Fields of a decoded table -/

theorem DeepEq.isNil {v : Value} {tree : Tree} (eq : DeepEq h v tree) :
    tree.isNil = true ↔ v = .nil := by
  cases eq <;> simp [Tree.isNil]

/-- Different keys are not raw equal after decoding. -/
theorem DeepEq.rawequal {k k' : Value} {t t' : Tree} (eq : DeepEq h k t) (eq' : DeepEq h k' t')
    (ne : k ≠ k') : t.rawequal t' = false := by
  cases eq <;> cases eq' <;> simp_all [Tree.rawequal]

theorem DeepEqFields.rawequal {k : Value} {t : Tree} (eq : DeepEq h k t) :
    ∀ {fields : List (Value × Value)} {entries : List (Tree × Tree)},
      DeepEqFields h fields entries → k ∉ fields.map Prod.fst →
      ∀ entry ∈ entries, entry.1.rawequal t = false
  | _, [], _, _, _, mem => by cases mem
  | _, _ :: _, .cons sameKey sameValue others, fresh, entry, mem => by
    obtain ⟨ne, fresh⟩ := List.ne_and_not_mem_of_not_mem_cons fresh
    rcases List.mem_cons.mp mem with rfl | mem
    · exact sameKey.rawequal eq ne.symm
    · exact others.rawequal eq fresh entry mem

theorem DeepEqFields.append : ∀ {fields fields' : List (Value × Value)}
    {entries entries' : List (Tree × Tree)}, DeepEqFields h fields entries →
    DeepEqFields h fields' entries' → DeepEqFields h (fields ++ fields') (entries ++ entries')
  | _, _, [], _, .nil, second => second
  | _, _, _ :: _, _, .cons sameKey sameValue others, second =>
    .cons sameKey sameValue (others.append second)

/-- Assigning a new key appends a field, or does nothing for nil. -/
theorem DeepEqFields.assign {fields : List (Value × Value)} {entries : List (Tree × Tree)}
    (same : DeepEqFields h fields entries) {k v : Value} {t u : Tree} (key : DeepEq h k t)
    (value : DeepEq h v u) (fresh : k ∉ fields.map Prod.fst) :
    DeepEqFields h (fields ++ if v = .nil then [] else [(k, v)]) (Tree.assign entries t u) := by
  have others : entries.filter (fun entry => !entry.1.rawequal t) = entries := by
    refine List.filter_eq_self.mpr fun entry mem => ?_
    rw [same.rawequal key fresh entry mem]
    rfl
  rw [Tree.assign, others]
  by_cases nil : v = .nil
  · rw [if_pos nil, if_pos (value.isNil.mpr nil), List.append_nil]
    exact same
  · rw [if_neg nil, if_neg (mt value.isNil.mp nil)]
    exact same.append (.cons key value .nil)

theorem rawset_eq {entries : List (Tree × Tree)} {k : Value} {t u : Tree} (key : DeepEq h k t)
    (isKey : k.isKey = true) : Tree.rawset entries t u = .ok (Tree.assign entries t u) := by
  cases key with
  | nil => cases isKey
  | number bits =>
    simp only [Value.isKey, Bool.and_eq_true, Bool.not_eq_true', Option.isNone_iff_eq_none]
      at isKey
    simp [Tree.rawset, isKey]
  | boolean | integer | string | lightuserdata | table => rfl

/-! ### The two parts of a table -/

/-- The fields of the array elements `vs` from index `i` on. -/
def arrayFields : Nat → List Value → List (Value × Value)
  | _, [] => []
  | i, v :: vs => (if v = .nil then [] else [(.integer (Int64.ofNat i), v)]) ++ arrayFields (i + 1) vs

theorem ofNat_inj {i j : Nat} (hi : i < 2 ^ 63) (hj : j < 2 ^ 63)
    (eq : Int64.ofNat i = Int64.ofNat j) : i = j := by
  have value := congrArg Int64.toInt eq
  rw [Int64.toInt_ofNat_of_lt hi, Int64.toInt_ofNat_of_lt hj] at value
  exact_mod_cast value

theorem mem_arrayFields {k v : Value} : ∀ {i : Nat} {vs : List Value},
    (k, v) ∈ arrayFields i vs ↔ ∃ j, vs[j]? = some v ∧ v ≠ .nil ∧ k = .integer (Int64.ofNat (i + j))
  | i, [] => by simp [arrayFields]
  | i, u :: vs => by
    rw [arrayFields, List.mem_append, mem_arrayFields]
    constructor
    · rintro (mem | ⟨j, get, ne, eq⟩)
      · split at mem
        · cases mem
        · rename_i ne
          obtain ⟨rfl, rfl⟩ := by simpa using mem
          exact ⟨0, rfl, ne, rfl⟩
      · exact ⟨j + 1, get, ne, by rw [eq, Nat.add_right_comm, Nat.add_assoc]⟩
    · rintro ⟨j, get, ne, eq⟩
      cases j with
      | zero =>
        obtain rfl : u = v := by simpa using get
        exact Or.inl (by simp [ne, eq])
      | succ j => exact Or.inr ⟨j, get, ne, by rw [eq, Nat.add_right_comm, Nat.add_assoc]⟩

theorem rawget_eq_iff {entries : List (Value × Value)} (distinct : (entries.map Prod.fst).Nodup)
    {k v : Value} (ne : v ≠ .nil) : rawget entries k = v ↔ (k, v) ∈ entries := by
  induction entries with
  | nil => simpa [rawget] using ne.symm
  | cons entry entries ih =>
    obtain ⟨k', v'⟩ := entry
    obtain ⟨fresh, distinct⟩ := List.nodup_cons.mp distinct
    by_cases same : k = k'
    · subst same
      have other : (k, v) ∉ entries := fun mem => fresh (List.mem_map.mpr ⟨_, mem, rfl⟩)
      simp [rawget, other, eq_comm]
    · have skip : rawget ((k', v') :: entries) k = rawget entries k := by
        rw [rawget, rawget, List.lookup_cons, beq_eq_false_iff_ne.mpr same]
      rw [skip, ih distinct]
      simp [same]

theorem arrayFields_nodup : ∀ {i : Nat} {vs : List Value}, i + vs.length < 2 ^ 63 →
    (arrayFields i vs).Nodup
  | _, [], _ => List.nodup_nil
  | i, u :: vs, bound => by
    rw [List.length_cons] at bound
    rw [arrayFields]
    refine List.Nodup.append (by split <;> simp) (arrayFields_nodup (by omega)) ?_
    rintro ⟨k, v⟩ first later
    obtain ⟨j, get, -, eq⟩ := mem_arrayFields.mp later
    have length := (List.getElem?_eq_some_iff.mp get).1
    split at first
    · cases first
    · obtain ⟨rfl, -⟩ := by simpa using first
      have := ofNat_inj (by omega) (by omega) (Value.integer.inj eq)
      omega

/-- The keys in the array part are the indices up to its size. -/
theorem inArray_iff {size : Int32} {k : Value} : inArray size k = true ↔
    ∃ j < size.toNatClampNeg, k = .integer (Int64.ofNat (1 + j)) := by
  have bound : size.toInt < 2 ^ 31 := size.toInt_lt
  have zero : (0 : Int64).toInt = 0 := rfl
  constructor
  · intro inside
    cases k with
    | integer x =>
      obtain ⟨positive, le⟩ : 0 < x ∧ x ≤ size.toInt64 := by simpa [inArray] using inside
      rw [Int64.lt_iff_toInt_lt] at positive
      rw [Int64.le_iff_toInt_le, Int32.toInt_toInt64] at le
      refine ⟨x.toInt.toNat - 1, ?_, congrArg _ (Int64.toInt_inj.mp ?_)⟩
      · rw [Int32.toNatClampNeg]
        omega
      · rw [Int64.toInt_ofNat_of_lt (by omega)]
        omega
    | _ => cases inside
  · rintro ⟨j, lt, rfl⟩
    rw [Int32.toNatClampNeg] at lt
    have value : (Int64.ofNat (1 + j)).toInt = (1 + j : Nat) :=
      Int64.toInt_ofNat_of_lt (by omega)
    simp only [inArray, Bool.and_eq_true, decide_eq_true_eq, Int64.lt_iff_toInt_lt,
      Int64.le_iff_toInt_le, value, zero, Int32.toInt_toInt64]
    omega

theorem arrayValues_getElem? {t : Table} {j : Nat} {v : Value} : (arrayValues t)[j]? = some v ↔
    j < (arraySize t).toNatClampNeg ∧ rawget t.entries (.integer (Int64.ofNat (1 + j))) = v := by
  rw [arrayValues, List.getElem?_map, Nat.add_comm 1 j]
  by_cases lt : j < (arraySize t).toNatClampNeg
  · rw [List.getElem?_range lt, Option.map_some, Option.some_inj]
    exact (and_iff_right lt).symm
  · rw [List.getElem?_eq_none (by simpa using lt)]
    simp [lt]

/-- The two parts are the fields of the table in another order. -/
theorem entries_perm (t : Table) :
    t.entries.Perm (arrayFields 1 (arrayValues t) ++ hashFields t) := by
  have length : (arrayValues t).length = (arraySize t).toNatClampNeg := by simp [arrayValues]
  have bound : (arraySize t).toInt < 2 ^ 31 := (arraySize t).toInt_lt
  have array : ∀ k v, (k, v) ∈ arrayFields 1 (arrayValues t) ↔
      (k, v) ∈ t.entries ∧ inArray (arraySize t) k = true := by
    intro k v
    rw [mem_arrayFields, inArray_iff]
    constructor
    · rintro ⟨j, get, ne, rfl⟩
      obtain ⟨lt, value⟩ := arrayValues_getElem?.mp get
      exact ⟨(rawget_eq_iff t.distinct ne).mp value, j, lt, rfl⟩
    · rintro ⟨mem, j, lt, rfl⟩
      have ne := t.values _ mem
      exact ⟨j, arrayValues_getElem?.mpr ⟨lt, (rawget_eq_iff t.distinct ne).mpr mem⟩, ne, rfl⟩
  have nodup : t.entries.Nodup := t.distinct.of_map
  refine (List.perm_ext_iff_of_nodup nodup ?_).mpr ?_
  · refine List.Nodup.append (arrayFields_nodup ?_) (nodup.filter _) ?_
    · rw [length, Int32.toNatClampNeg]
      omega
    · rintro ⟨k, v⟩ first second
      have inside := ((array k v).mp first).2
      rw [hashFields, List.mem_filter, inside] at second
      cases second.2
  · rintro ⟨k, v⟩
    rw [List.mem_append, array, hashFields, List.mem_filter]
    cases inArray (arraySize t) k <;> simp

/-! ### Decoding a table -/

/-- The bytes of a value are decoded by `unpack_one`. -/
def Decodes (h : Heap) (fuel : Nat) (v : Value) (bytes : List UInt8) : Prop :=
  bytes ≠ [] ∧ ∃ tree, DeepEq h v tree ∧ Reads (fun rb => unpackOne fuel rb) bytes tree

theorem unpackArray_reads {fuel : Nat} : ∀ {vs : List Value} {blocks : List (List UInt8)} {i : Nat}
    {fields : List (Value × Value)} {entries : List (Tree × Tree)},
    List.Forall₂ (Decodes h fuel) vs blocks → DeepEqFields h fields entries →
    (∀ j, i ≤ j → j < i + vs.length → .integer (Int64.ofNat j) ∉ fields.map Prod.fst) →
    i + vs.length < 2 ^ 63 →
    ∃ entries', DeepEqFields h (fields ++ arrayFields i vs) entries' ∧
      Reads (fun rb => unpackArray (fun rb => unpackOne fuel rb) vs.length i entries rb)
        blocks.flatten entries'
  | [], _, i, fields, entries, .nil, same, _, _ => by
    rw [arrayFields, List.append_nil]
    exact ⟨entries, same, .pure entries⟩
  | v :: vs, bytes :: blocks, i, fields, entries, .cons first others, same, fresh, bound => by
    obtain ⟨-, tree, eq, reads⟩ := first
    rw [List.length_cons] at fresh bound
    have assigned := same.assign (.integer (Int64.ofNat i)) eq (fresh i le_rfl (by omega))
    obtain ⟨entries', same', reads'⟩ := unpackArray_reads (i := i + 1) others assigned
      (fun j ge lt mem => by
        rw [List.map_append, List.mem_append] at mem
        rcases mem with mem | mem
        · exact fresh j (by omega) (by omega) mem
        · split at mem
          · cases mem
          · have key : Int64.ofNat j = Int64.ofNat i := by simpa using mem
            have := ofNat_inj (by omega) (by omega) key
            omega)
      (by omega)
    rw [List.append_assoc] at same'
    exact ⟨entries', same', reads.bind (q := fun tree rb =>
      unpackArray (fun rb => unpackOne fuel rb) vs.length (i + 1)
        (Tree.assign entries (.integer (Int64.ofNat i)) tree) rb) reads'⟩

/-- The bytes of a field, its key before its value. -/
def DecodesField (h : Heap) (fuel : Nat) (field : Value × Value) (bytes : List UInt8) : Prop :=
  ∃ key value, bytes = key ++ value ∧ Decodes h fuel field.1 key ∧ Decodes h fuel field.2 value

theorem unpackHash_field {unpack : ReadBlock → Except Failure (Tree × ReadBlock)}
    {rb rb₁ rb₂ : ReadBlock} {t u : Tree} {rounds : Nat} {entries entries₁ : List (Tree × Tree)}
    (key : unpack rb = .ok (t, rb₁)) (keyed : t.isNil = false) (value : unpack rb₁ = .ok (u, rb₂))
    (set : Tree.rawset entries t u = .ok entries₁) :
    unpackHash unpack (rounds + 1) entries rb = unpackHash unpack rounds entries₁ rb₂ := by
  simp [unpackHash, key, keyed, value, set, bind, Except.bind]

theorem unpackHash_reads {fuel : Nat} (positive : 0 < fuel) : ∀ {more : List (Value × Value)}
    {blocks : List (List UInt8)} {rounds : Nat} {fields : List (Value × Value)}
    {entries : List (Tree × Tree)},
    List.Forall₂ (DecodesField h fuel) more blocks → DeepEqFields h fields entries →
    ((fields ++ more).map Prod.fst).Nodup →
    (∀ field ∈ more, field.1.isKey = true ∧ field.2 ≠ .nil) → more.length < rounds →
    ∃ entries', DeepEqFields h (fields ++ more) entries' ∧
      Reads (fun rb => unpackHash (fun rb => unpackOne fuel rb) rounds entries rb)
        (blocks.flatten ++ wbNil) entries'
  | [], _, rounds + 1, fields, entries, .nil, same, _, _, _ => by
    obtain ⟨fuel, rfl⟩ := Nat.exists_eq_succ_of_ne_zero positive.ne'
    rw [List.append_nil]
    refine ⟨entries, same, ?_⟩
    intro rb rest holds
    obtain ⟨rb', eq, holds'⟩ := (pushes_wbNil fuel).unpackOne rb rest holds
    refine ⟨rb', ?_, holds'⟩
    simp only [unpackHash, eq]
    rfl
  | (k, v) :: more, _ :: blocks, rounds + 1, fields, entries, .cons first others, same, distinct,
      valid, lt => by
    obtain ⟨key, value, rfl, ⟨-, t, sameKey, readsKey⟩, ⟨-, u, sameValue, readsValue⟩⟩ := first
    obtain ⟨isKey, present⟩ : k.isKey = true ∧ v ≠ .nil := valid (k, v) List.mem_cons_self
    have fresh : k ∉ fields.map Prod.fst := by
      rw [List.map_append, List.nodup_append] at distinct
      exact fun mem => distinct.2.2 k mem k List.mem_cons_self rfl
    have keyed : t.isNil = false := by
      cases nil : t.isNil with
      | false => rfl
      | true =>
        have none : k = .nil := sameKey.isNil.mp nil
        rw [none] at isKey
        cases isKey
    have assigned : DeepEqFields h (fields ++ [(k, v)]) (Tree.assign entries t u) := by
      have assigned := same.assign sameKey sameValue fresh
      rwa [if_neg present] at assigned
    obtain ⟨entries', same', reads⟩ := unpackHash_reads positive others assigned
      (by rwa [List.append_assoc]) (fun field mem => valid field (List.mem_cons_of_mem _ mem))
      (Nat.lt_of_succ_lt_succ lt)
    rw [List.append_assoc] at same'
    refine ⟨entries', same', ?_⟩
    intro rb rest holds
    rw [List.flatten_cons, List.append_assoc, List.append_assoc, List.append_assoc] at holds
    obtain ⟨rb₁, eq₁, holds₁⟩ := readsKey rb _ holds
    obtain ⟨rb₂, eq₂, holds₂⟩ := readsValue rb₁ _ holds₁
    obtain ⟨rb₃, eq₃, holds₃⟩ := reads rb₂ rest (by rwa [List.append_assoc])
    refine ⟨rb₃, ?_, holds₃⟩
    exact (unpackHash_field eq₁ keyed eq₂ (rawset_eq sameKey isKey)).trans eq₃

/-! ### Encoding -/

/-- `v` is one of the values `vs`, or a key or a value of a table that is. -/
inductive Reached (h : Heap) (vs : List Value) : Value → Prop
  | root {v : Value} (mem : v ∈ vs) : Reached h vs v
  | key {ref : Nat} {k v : Value} (table : Reached h vs (.table ref))
      (mem : (k, v) ∈ (h ref).entries) : Reached h vs k
  | value {ref : Nat} {k v : Value} (table : Reached h vs (.table ref))
      (mem : (k, v) ∈ (h ref).entries) : Reached h vs v

/-- The lengths of a value survive as an `int`: a string is shorter than 2^31, and the size of an
array part is not negative or a multiple of 32. -/
def IntSized (h : Heap) : Value → Prop
  | .string s => s.length < 2 ^ 31
  | .table ref => SizeFits (arraySize (h ref))
  | _ => True

theorem Reached.trans {vs : List Value} {v w : Value} (inner : Reached h [v] w)
    (outer : Reached h vs v) : Reached h vs w := by
  induction inner with
  | root mem => exact List.mem_singleton.mp mem ▸ outer
  | key _ mem ih => exact .key ih mem
  | value _ mem ih => exact .value ih mem

theorem Reached.mono {vs ws : List Value} (subset : ∀ v ∈ vs, v ∈ ws) {v : Value}
    (reached : Reached h vs v) : Reached h ws v := by
  induction reached with
  | root mem => exact .root (subset _ mem)
  | key _ mem ih => exact .key ih mem
  | value _ mem ih => exact .value ih mem

/-- What contains the roots, and the fields of each table it contains, contains all that is
reached. -/
theorem Reached.mem {vs : List Value} (values : List Value) (roots : ∀ v ∈ vs, v ∈ values)
    (closed : ∀ ref, .table ref ∈ values → ∀ field ∈ (h ref).entries,
      field.1 ∈ values ∧ field.2 ∈ values) {v : Value} (reached : Reached h vs v) : v ∈ values := by
  induction reached with
  | root mem => exact roots _ mem
  | key _ mem ih => exact (closed _ ih _ mem).1
  | value _ mem ih => exact (closed _ ih _ mem).2

theorem bind_eq_ok {ε α β : Type} {x : Except ε α} {f : α → Except ε β} {b : β}
    (eq : x >>= f = .ok b) : ∃ a, x = .ok a ∧ f a = .ok b := by
  cases x with
  | error msg => cases eq
  | ok a => exact ⟨a, rfl, eq⟩

theorem forall₂_of_mapM {ε α β : Type} {f : α → Except ε β} : ∀ {xs : List α} {ys : List β},
    xs.mapM f = .ok ys → List.Forall₂ (fun x y => f x = .ok y) xs ys
  | [], ys, eq => by
    cases eq
    exact .nil
  | x :: xs, ys, eq => by
    rw [List.mapM_cons] at eq
    obtain ⟨y, first, eq⟩ := bind_eq_ok eq
    obtain ⟨ys', others, eq⟩ := bind_eq_ok eq
    cases eq
    exact .cons first (forall₂_of_mapM others)

/-- The two parts that `wb_table` packs. -/
theorem wbTable_cases {pack : Value → Except String (List UInt8)} {t : Table} {bytes : List UInt8}
    (eq : wbTable pack t = .ok bytes) : ∃ array hash,
    List.Forall₂ (fun v block => pack v = .ok block) (arrayValues t) array ∧
    List.Forall₂ (fun field block => ∃ key value, block = key ++ value ∧
      pack field.1 = .ok key ∧ pack field.2 = .ok value) (hashFields t) hash ∧
    bytes = wbTableHeader (arraySize t) ++ array.flatten ++ hash.flatten ++ wbNil := by
  obtain ⟨array, packed, eq⟩ := bind_eq_ok eq
  obtain ⟨hash, packed', eq⟩ := bind_eq_ok eq
  refine ⟨array, hash, forall₂_of_mapM packed, (forall₂_of_mapM packed').imp ?_, ?_⟩
  · intro field block eq
    obtain ⟨key, first, eq⟩ := bind_eq_ok eq
    obtain ⟨value, second, eq⟩ := bind_eq_ok eq
    cases eq
    exact ⟨key, value, rfl, first, second⟩
  · cases eq
    rfl

/-- Each block is at most as long as all of them. -/
theorem forall₂_mem {α : Type} {P : α → List UInt8 → Prop} {Q : α → List UInt8 → Prop} {n : Nat} :
    ∀ {xs : List α} {blocks : List (List UInt8)}, List.Forall₂ P xs blocks →
    blocks.flatten.length ≤ n → (∀ x ∈ xs, ∀ block, P x block → block.length ≤ n → Q x block) →
    List.Forall₂ Q xs blocks
  | [], _, .nil, _, _ => .nil
  | x :: xs, block :: blocks, .cons first others, short, imp => by
    rw [List.flatten_cons, List.length_append] at short
    exact .cons (imp x List.mem_cons_self block first (by omega))
      (forall₂_mem others (by omega) fun y mem => imp y (List.mem_cons_of_mem _ mem))

theorem length_le_flatten {α : Type} {P : α → List UInt8 → Prop}
    (ne : ∀ x block, P x block → block ≠ []) : ∀ {xs : List α} {blocks : List (List UInt8)},
    List.Forall₂ P xs blocks → xs.length ≤ blocks.flatten.length
  | [], _, .nil => Nat.zero_le _
  | _ :: _, _ :: _, .cons first others => by
    have ih := length_le_flatten ne others
    have positive := List.length_pos_of_ne_nil (ne _ _ first)
    rw [List.length_cons, List.flatten_cons, List.length_append]
    omega

theorem DecodesField.ne_nil {fuel : Nat} {field : Value × Value} {bytes : List UInt8} :
    DecodesField h fuel field bytes → bytes ≠ [] := by
  rintro ⟨key, value, rfl, ⟨ne, -⟩, -⟩ eq
  exact ne (List.append_eq_nil_iff.mp eq).1

/-- The bytes of a table, when those of its fields are decoded. -/
theorem pushes_wbTable {pack : Value → Except String (List UInt8)} {ref fuel : Nat}
    {bytes : List UInt8} (eq : wbTable pack (h ref) = .ok bytes)
    (fits : SizeFits (arraySize (h ref))) (short : bytes.length ≤ fuel + 1)
    (inner : ∀ v, (v = .nil ∨ ∃ field ∈ (h ref).entries, v = field.1 ∨ v = field.2) →
      ∀ block, pack v = .ok block → block.length ≤ fuel → Decodes h fuel v block) :
    ∃ tree, DeepEq h (.table ref) tree ∧ Pushes fuel bytes tree := by
  obtain ⟨array, hash, packed, packed', rfl⟩ := wbTable_cases eq
  obtain ⟨byte, payload, size, header, type, count, readsSize⟩ := getArraySize_wbTableHeader fits
  have nil : wbNil.length = 1 := rfl
  rw [header] at short ⊢
  simp only [List.length_append, List.length_cons, nil] at short
  have arrayDecodes : List.Forall₂ (Decodes h fuel) (arrayValues (h ref)) array := by
    refine forall₂_mem packed (n := fuel) (by omega) fun v mem => inner v ?_
    obtain ⟨i, -, get⟩ := List.mem_map.mp mem
    by_cases ne : v = .nil
    · exact Or.inl ne
    · exact Or.inr ⟨_, (rawget_eq_iff (h ref).distinct ne).mp get, Or.inr rfl⟩
  have hashDecodes : List.Forall₂ (DecodesField h fuel) (hashFields (h ref)) hash := by
    refine forall₂_mem packed' (n := fuel) (by omega) fun field mem block packed short => ?_
    have mem := List.mem_of_mem_filter mem
    obtain ⟨key, value, rfl, first, second⟩ := packed
    rw [List.length_append] at short
    exact ⟨key, value, rfl, inner _ (Or.inr ⟨field, mem, Or.inl rfl⟩) _ first (by omega),
      inner _ (Or.inr ⟨field, mem, Or.inr rfl⟩) _ second (by omega)⟩
  have length := length_le_flatten (fun _ _ => DecodesField.ne_nil) hashDecodes
  have sizes : (arrayValues (h ref)).length = size.toNatClampNeg := by
    rw [count, arrayValues, List.length_map, List.length_range]
  have bound : size.toInt < 2 ^ 31 := size.toInt_lt
  obtain ⟨entries, same, readsArray⟩ := unpackArray_reads (i := 1) arrayDecodes .nil
    (fun j _ _ mem => by cases mem) (by rw [sizes, Int32.toNatClampNeg]; omega)
  have perm := entries_perm (h ref)
  obtain ⟨entries', same', readsHash⟩ := unpackHash_reads (by omega) hashDecodes
    same ((perm.map Prod.fst).nodup_iff.mp (h ref).distinct)
    (fun field mem => ⟨(h ref).keys field (List.mem_of_mem_filter mem),
      (h ref).values field (List.mem_of_mem_filter mem)⟩)
    (show (hashFields (h ref)).length < fuel by omega)
  rw [sizes] at readsArray
  have fields := readsArray.bind (q := fun entries rb =>
    unpackHash (fun rb => unpackOne fuel rb) fuel entries rb >>= fun r => .ok (Tree.table r.1, r.2))
    (readsHash.map Tree.table)
  have table := readsSize.bind (q := fun size rb =>
    unpackArray (fun rb => unpackOne fuel rb) size.toNatClampNeg 1 [] rb >>= fun r =>
    unpackHash (fun rb => unpackOne fuel rb) fuel r.1 r.2 >>= fun r => .ok (Tree.table r.1, r.2)) fields
  refine ⟨.table entries', .table perm same', byte,
    payload ++ (array.flatten ++ (hash.flatten ++ wbNil)), by simp, ?_⟩
  rw [type]
  exact table

theorem Reached.eq_nil {v : Value} (reached : Reached h [.nil] v) : v = .nil := by
  induction reached with
  | root mem => exact List.mem_singleton.mp mem
  | key _ _ ih => cases ih
  | value _ _ ih => cases ih

/-- What `pack_one` writes for a value is decoded to a value that is deeply equal. -/
theorem packOne_pushes : ∀ {levels : Nat} {v : Value} {bytes : List UInt8} {fuel : Nat},
    packOne h levels v = .ok bytes → (∀ w, Reached h [v] w → IntSized h w) →
    bytes.length ≤ fuel + 1 → ∃ tree, DeepEq h v tree ∧ Pushes fuel bytes tree
  | 0, _, _, _, eq, _, _ => by cases eq
  | levels + 1, v, bytes, fuel, eq, sized, short => by
    cases v with
    | nil =>
      cases eq
      exact ⟨_, .nil, pushes_wbNil fuel⟩
    | boolean b =>
      cases eq
      exact ⟨_, .boolean b, pushes_wbBoolean fuel b⟩
    | integer x =>
      cases eq
      exact ⟨_, .integer x, pushes_wbInteger fuel x⟩
    | number bits =>
      cases eq
      exact ⟨_, .number bits, pushes_wbReal fuel bits⟩
    | string s =>
      cases eq
      exact ⟨_, .string s, pushes_wbString fuel s (sized _ (.root (List.mem_singleton.mpr rfl)))⟩
    | lightuserdata p =>
      cases eq
      exact ⟨_, .lightuserdata p, pushes_wbPointer fuel p⟩
    | object type ref => cases eq
    | table ref =>
      have root : Reached h [.table ref] (.table ref) := .root (List.mem_singleton.mpr rfl)
      refine pushes_wbTable eq (sized _ root) short fun v reached block packed short => ?_
      have sized : ∀ w, Reached h [v] w → IntSized h w := by
        intro w inner
        rcases reached with rfl | ⟨⟨k, u⟩, mem, rfl | rfl⟩
        · rw [inner.eq_nil]
          trivial
        · exact sized w (inner.trans (.key root mem))
        · exact sized w (inner.trans (.value root mem))
      obtain ⟨tree, same, pushes⟩ := packOne_pushes packed sized
        (show block.length ≤ fuel - 1 + 1 by omega)
      have ne := pushes.ne_nil
      have reads := pushes.unpackOne
      rw [Nat.sub_add_cancel (le_trans (List.length_pos_of_ne_nil ne) short)] at reads
      exact ⟨ne, tree, same, reads⟩

/-- The loop of `unpack_buffer` decodes the values one after another. -/
theorem unpackAll_eq {fuel : Nat} : ∀ {vs : List Value} {blocks : List (List UInt8)} {rounds : Nat}
    {rb : ReadBlock},
    List.Forall₂ (fun v block => ∃ tree, DeepEq h v tree ∧ Pushes fuel block tree) vs blocks →
    rb.Holds blocks.flatten → vs.length < rounds →
    ∃ ws, unpackAll fuel rounds rb = .ok ws ∧ List.Forall₂ (DeepEq h) vs ws
  | [], _, rounds + 1, rb, .nil, holds, _ => by
    have none : rb.read 1 = none := if_pos (by rw [holds.len]; decide)
    refine ⟨[], ?_, .nil⟩
    rw [unpackAll, none]
  | v :: vs, _ :: blocks, rounds + 1, rb, .cons ⟨tree, same, byte, payload, rfl, reads⟩ others,
      holds, lt => by
    have holds : rb.Holds ([byte] ++ (payload ++ blocks.flatten)) := holds
    obtain ⟨rb₁, eq₁, holds₁⟩ := holds.read
    obtain ⟨rb₂, eq₂, holds₂⟩ := reads rb₁ _ holds₁
    obtain ⟨ws, eq₃, all⟩ := unpackAll_eq others holds₂
      (Nat.lt_of_succ_lt_succ lt)
    change rb.read 1 = _ at eq₁
    change pushValue (unpackOne fuel) fuel rb₁ (typeOf byte) (cookieOf byte) = _ at eq₂
    refine ⟨tree :: ws, ?_, .cons same all⟩
    rw [unpackAll, eq₁]
    change (pushValue (unpackOne fuel) fuel rb₁ (typeOf byte) (cookieOf byte) >>= _) = _
    rw [eq₂]
    change (unpackAll fuel rounds rb₂ >>= _) = _
    rw [eq₃]
    rfl

/-- The bytes of all values are decoded by `Unserialize`. -/
theorem unserialize_flatten {levels : Nat} {vs : List Value} {blocks : List (List UInt8)}
    (packed : List.Forall₂ (fun v block => packOne h levels v = .ok block) vs blocks)
    (short : blocks.flatten.length < 2 ^ 31) (sized : ∀ v, Reached h vs v → IntSized h v) :
    ∃ ws, unserialize blocks.flatten = .ok ws ∧ List.Forall₂ (DeepEq h) vs ws := by
  have len : (Int32.ofNat blocks.flatten.length).toInt = blocks.flatten.length :=
    Int32.toInt_ofNat_of_lt short
  have pushes : List.Forall₂ (fun v block => ∃ tree, DeepEq h v tree ∧
      Pushes (blocks.flatten.length + 1) block tree) vs blocks := by
    refine forall₂_mem packed le_rfl fun v mem block packed short => ?_
    exact packOne_pushes packed (fun w inner => sized w (inner.trans (.root mem))) (by omega)
  have count := length_le_flatten (fun _ _ ⟨_, _, pushes⟩ => pushes.ne_nil) pushes
  unfold unserialize
  simp only [len]
  split
  · obtain rfl : vs = [] := List.length_eq_zero_iff.mp (by omega)
    exact ⟨[], rfl, .nil⟩
  · exact unpackAll_eq pushes ⟨le_rfl, rfl, rfl⟩ (by omega)

/-- The bytes that `Serialize` writes are those of its arguments, one after another. -/
theorem serialize_blocks {vs : List Value} {bytes : List UInt8}
    (serialized : serialize h vs = .ok bytes) : ∃ blocks, bytes = blocks.flatten ∧
      List.Forall₂ (fun v block => packOne h (maxDepth + 1) v = .ok block) vs blocks := by
  obtain ⟨blocks, packed, eq⟩ := bind_eq_ok serialized
  cases eq
  exact ⟨blocks, rfl, forall₂_of_mapM packed⟩

def emptyTable : Table where
  entries := []
  rawlen := 0
  distinct := List.nodup_nil
  keys := by simp
  values := by simp
  fits := by decide
  present := Or.inl rfl
  absent := fun _ => rfl

/-- `{[1] = true, [3] = {}, x = 7}`, where 3 is the border. -/
def sparseTable : Table where
  entries := [(.integer 1, .boolean true), (.string [120], .integer 7), (.integer 3, .table 1)]
  rawlen := 3
  distinct := by decide
  keys := by decide
  values := by decide
  fits := by decide
  present := by decide
  absent := by decide

def sparseHeap (ref : Nat) : Table := if ref = 0 then sparseTable else emptyTable

theorem sparse_intSized {v : Value} (reached : Reached sparseHeap [.table 0, .nil] v) :
    IntSized sparseHeap v := by
  have known : v ∈ [.table 0, .nil, .integer 1, .boolean true, .string [120], .integer 7,
      .integer 3, .table 1] := by
    refine reached.mem _ (by decide) fun ref mem => ?_
    obtain rfl | rfl : ref = 0 ∨ ref = 1 := by simpa using mem
    · decide
    · decide
  simp only [List.mem_cons, List.not_mem_nil, or_false] at known
  rcases known with rfl | rfl | rfl | rfl | rfl | rfl | rfl | rfl
  · exact Or.inl (by decide)
  · trivial
  · trivial
  · trivial
  · exact (by decide : 1 < 2 ^ 31)
  · trivial
  · trivial
  · exact Or.inl (by decide)

/-- The fields of a table whose border is 2^31 + 5: a run of doubled indices, and two more. -/
def hugeFields : List (Value × Value) :=
  ((List.range 32).map (2 ^ ·) ++ [2 ^ 31 + 4, 2 ^ 31 + 5]).map fun i =>
    (.integer (Int64.ofNat i), .boolean true)

def hugeTable : Table where
  entries := hugeFields
  rawlen := 2 ^ 31 + 5
  distinct := by decide +kernel
  keys := by decide +kernel
  values := by decide +kernel
  fits := by decide
  present := by decide +kernel
  absent := by decide +kernel

def hugeHeap (_ref : Nat) : Table := hugeTable

/-- The bytes of the table. -/
def hugeBytes : List UInt8 := (serialize hugeHeap [.table 0]).toOption.getD []

end Starnet.LuaSeri
