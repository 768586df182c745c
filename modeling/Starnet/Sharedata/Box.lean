import Starnet.Sharedata.Convert
import Starnet.Sharedata.Store

/-! Indexing a box. `lindex` looks for the key in the metatable of boxes first, which has methods
and metamethods, and then in the shared table. -/

namespace Starnet.Sharedata

open LuaSeri (Value Tree Heap Table DeepEq DeepEqFields Reached arraySize rawget rawget_eq_iff)
open SharedTable Iteration

/-- `BoxUserData`. -/
structure Box where
  state : TableState (SharedTable Content)
  table : SharedTable Content

/-- The box that `lquery` makes. -/
def TableState.box (st : TableState (SharedTable Content)) : Box := ⟨st, st.table⟩

/-- The bytes of a name. -/
def ascii (name : String) : List UInt8 := name.toList.map fun c => UInt8.ofNat c.toNat

/-- The fields of the metatable of boxes. `luaL_newmetatable` sets the first one, and
`LuaSharedata::Register` sets the others. -/
def boxFields : List (List UInt8) :=
  ["__name", "__index", "__pairs", "__len", "__gc", "version", "isdirty", "hashlen"].map ascii

/-- What `lindex` leaves on the stack; `field` is the field of the metatable with that name. -/
inductive Pushed
  | nil
  | boolean (b : Bool)
  | integer (x : Int64)
  | number (bits : UInt64)
  | string (s : List UInt8)
  | box (b : Box)
  | field (name : List UInt8)

/-- `push_value`, where a nested box gets the state of its parent. -/
def pushContent (state : TableState (SharedTable Content)) : Option Content → Pushed
  | none => .nil
  | some (.real bits) => .number bits
  | some (.integer x) => .integer x
  | some (.boolean b) => .boolean b
  | some (.string s) => .string s
  | some (.table t) => .box ⟨state, t⟩

/-- `lindex`. It is `none` when the search for the key does not end. -/
def lindex (b : Box) (k : Value) : Option (Except ConvError Pushed) :=
  let find (key : Key) := (b.table.lookup key).map fun v => .ok (pushContent b.state v.join)
  match k with
  | .string s => if s ∈ boxFields then some (.ok (.field s)) else find (.string s)
  | .integer x => find (.integer x)
  | .number bits => some (.error (.invalidKey bits))
  | _ => some (.ok .nil)

/-! ### Paths -/

/-- The box at the end of a path of keys. -/
def boxAt : Box → List Key → Option Box
  | b, [] => some b
  | b, key :: path =>
    match lindex b (pushKey key) with
    | some (.ok (.box b')) => boxAt b' path
    | _ => none

/-- The value at the end of a path in a Lua table. -/
def fieldAt (h : Heap) : Value → List Key → Value
  | v, [] => v
  | .table ref, key :: path => fieldAt h (rawget (h ref).entries (pushKey key)) path
  | _, _ :: _ => .nil

/-- The value of a key in a new table. -/
def copyGet (entries : List (Tree × Tree)) (key : Tree) : Tree :=
  match entries.find? fun entry => entry.1.rawequal key with
  | some entry => entry.2
  | none => .nil

/-- The value at the end of a path in a new table. -/
def copyAt : Tree → List Key → Tree
  | t, [] => t
  | .table entries, key :: path => copyAt (copyGet entries (newKey key)) path
  | _, _ :: _ => .nil

variable {h : Heap} {state : TableState (SharedTable Content)}

/-- The values and the boxes that show them. -/
inductive Shows (h : Heap) (state : TableState (SharedTable Content)) : Value → Pushed → Prop
  | nil : Shows h state .nil .nil
  | boolean (b : Bool) : Shows h state (.boolean b) (.boolean b)
  | integer (x : Int64) : Shows h state (.integer x) (.integer x)
  | number (bits : UInt64) : Shows h state (.number bits) (.number bits)
  | string (s : List UInt8) : Shows h state (.string s) (.string s)
  | table {levels ref : Nat} {t : SharedTable Content} (built : convTable h levels ref = .ok t) :
      Shows h state (.table ref) (.box ⟨state, t⟩)

/-- The key has the name of a field of the metatable. -/
def Reserved : Key → Prop
  | .integer _ => False
  | .string s => s ∈ boxFields

/-! ### Indexing -/

theorem pushKey_injective : Function.Injective pushKey := by
  intro key key' eq
  cases key <;> cases key' <;> cases eq <;> rfl

theorem exists_field {conv : Nat → Except ConvError (SharedTable Content)}
    {entries : List (Value × Value)} {fields : List (Key × Content)}
    (same : List.Forall₂ (Converts conv) entries fields) {shared : Key × Content}
    (mem : shared ∈ fields) : ∃ field ∈ entries, Converts conv field shared := by
  induction same with
  | nil => cases mem
  | cons first rest ih =>
    rcases List.mem_cons.mp mem with rfl | mem
    · exact ⟨_, List.mem_cons_self, first⟩
    · obtain ⟨field, mem, converts⟩ := ih mem
      exact ⟨field, List.mem_cons_of_mem _ mem, converts⟩

/-- The value of a key that was converted, or nil for any other key. -/
theorem rawget_of_converts {conv : Nat → Except ConvError (SharedTable Content)} {t : Table}
    {fields : List (Key × Content)} (same : List.Forall₂ (Converts conv) t.entries fields)
    (key : Key) : match fields.lookup key with
      | some c => convValue conv (rawget t.entries (pushKey key)) = .ok c
      | none => rawget t.entries (pushKey key) = .nil := by
  have distinct := distinct_of_converts same
  cases found : fields.lookup key with
  | some c =>
    have mem := (lookup_eq_some distinct).mp found
    obtain ⟨field, mem', eq, value⟩ := exists_field same mem
    have get := (rawget_eq_iff t.distinct (t.values _ mem')).mpr mem'
    dsimp only at eq ⊢
    rw [← eq, get]
    exact value
  | none =>
    by_contra some
    obtain ⟨shared, mem, eq, -⟩ := exists_converts same ((rawget_eq_iff t.distinct some).mp rfl)
    rw [List.lookup_eq_none_iff] at found
    have ne := found shared mem
    rw [bne_iff_ne] at ne
    exact ne (pushKey_injective eq)

theorem shows_of_convValue {levels : Nat} {v : Value} {c : Content}
    (value : convValue (convTable h levels) v = .ok c) :
    Shows h state v (pushContent state (some c)) := by
  cases v with
  | integer x =>
    cases value
    exact .integer x
  | number bits =>
    cases value
    exact .number bits
  | string s =>
    cases value
    exact .string s
  | boolean b =>
    cases value
    exact .boolean b
  | table ref =>
    obtain ⟨t, built, rfl⟩ := except_map_eq_ok value
    exact .table built
  | nil | lightuserdata | object => cases value

theorem lindex_eq {b : Box} {key : Key} (plain : ¬Reserved key) :
    lindex b (pushKey key) =
      (b.table.lookup key).map fun v => .ok (pushContent b.state v.join) := by
  cases key with
  | integer x => rfl
  | string s => exact if_neg plain

/-- The links of the hash part of the shared table of `t` fit. -/
def Findable (t : Table) : Prop := LinksFit (hashItems (arraySize t).toInt (sharedFields t))

/-- What a box of the table `ref` gives for a key is the value of the key in the fields. -/
theorem lindex_field {levels ref : Nat} {b : Box} (built : convTable h levels ref = .ok b.table)
    (findable : Findable (h ref)) {key : Key} (plain : ¬Reserved key) :
    ∃ levels' fields, convFields (convTable h levels') (h ref) = .ok fields ∧
      b.table = build (arraySize (h ref)).toInt fields ∧
      lindex b (pushKey key) = some (.ok (pushContent b.state (fields.lookup key))) ∧
      Shows h b.state (rawget (h ref).entries (pushKey key))
        (pushContent b.state (fields.lookup key)) := by
  cases levels with
  | zero => cases built
  | succ levels =>
    obtain ⟨fields, converted, table⟩ := except_map_eq_ok built
    have same := convFields_eq_ok converted
    have keys := (keys_of_converts same).2
    rw [← map_fst_sharedFields] at keys
    have correct := correct_of_linksFit (distinct_of_converts same) (linksFit_congr keys findable)
    obtain ⟨found, search, value⟩ := correct key
    refine ⟨levels, fields, converted, table.symm, ?_, ?_⟩
    · rw [lindex_eq plain, ← table, search, Option.map_some, value]
    · have field := rawget_of_converts same key
      cases get : fields.lookup key with
      | some c =>
        rw [get] at field
        exact shows_of_convValue field
      | none =>
        rw [get] at field
        dsimp only at field
        rw [field]
        exact .nil

/-- A field of the metatable hides the key of its name. -/
theorem lindex_reserved (b : Box) {name : List UInt8} (mem : name ∈ boxFields) :
    lindex b (.string name) = some (.ok (.field name)) := if_pos mem

/-! ### Nested boxes -/

theorem fieldAt_scalar {v : Value} (scalar : ∀ ref, v ≠ .table ref) (key : Key) (path : List Key) :
    fieldAt h v (key :: path) = .nil := by
  cases v with
  | table ref => exact absurd rfl (scalar ref)
  | nil | boolean | integer | number | string | lightuserdata | object => rfl

theorem fieldAt_concat (v : Value) (path : List Key) (key : Key) :
    fieldAt h v (path ++ [key]) = fieldAt h (fieldAt h v path) [key] := by
  induction path generalizing v with
  | nil => rfl
  | cons first path ih =>
    by_cases scalar : ∀ ref, v ≠ .table ref
    · rw [List.cons_append, fieldAt_scalar scalar, fieldAt_scalar scalar]
      rfl
    · push Not at scalar
      obtain ⟨ref, rfl⟩ := scalar
      exact ih _

/-- Along a path of keys that are not fields of the metatable, a table in the published one has a
box of its own. -/
theorem boxAt_eq {path : List Key} {levels ref ref' : Nat} {b : Box}
    (built : convTable h levels ref = .ok b.table)
    (findable : ∀ ref', Reached h [.table ref] (.table ref') → Findable (h ref'))
    (plain : ∀ key ∈ path, ¬Reserved key) (inner : fieldAt h (.table ref) path = .table ref') :
    Reached h [.table ref] (.table ref') ∧
      ∃ levels' t, boxAt b path = some ⟨b.state, t⟩ ∧ convTable h levels' ref' = .ok t := by
  induction path generalizing levels ref b with
  | nil =>
    cases inner
    exact ⟨.root List.mem_cons_self, levels, b.table, rfl, built⟩
  | cons key path ih =>
    have root : Reached h [.table ref] (.table ref) := .root List.mem_cons_self
    obtain ⟨levels', fields, -, -, index, shown⟩ :=
      lindex_field built (findable ref root) (plain key List.mem_cons_self)
    change fieldAt h (rawget (h ref).entries (pushKey key)) path = .table ref' at inner
    obtain ⟨r, field⟩ : ∃ r, rawget (h ref).entries (pushKey key) = .table r := by
      cases path with
      | nil => exact ⟨ref', inner⟩
      | cons next path =>
        by_contra scalar
        push Not at scalar
        rw [fieldAt_scalar scalar] at inner
        cases inner
    rw [field] at inner shown
    generalize pushed : pushContent b.state (fields.lookup key) = p at index shown
    cases shown with
    | table built' =>
      rename_i t
      have mem := (rawget_eq_iff (h ref).distinct (by simp)).mp field
      have reached : Reached h [.table ref] (.table r) := .value root mem
      obtain ⟨reached', levels'', t', here, done⟩ := ih (b := ⟨b.state, t⟩) built'
        (fun ref'' reached' => findable ref'' (reached'.trans reached))
        (fun key mem => plain key (List.mem_cons_of_mem _ mem)) inner
      refine ⟨reached'.trans reached, levels'', t', ?_, done⟩
      rw [boxAt, index]
      exact here

/-! ### Pairs and deep copies -/

/-- `pairs` over the box comes to the key with the value `p`, or does not come to it and `p` is
nil. -/
def PairsShow (b : Box) (key : Key) (p : Pushed) : Prop :=
  ∃ fuel l, visit (lnextkey b.table) fuel .nil = some l ∧
    (∀ c, (pushKey key, c) ∈ l → pushContent b.state c = p) ∧
    ((∀ c, (pushKey key, c) ∉ l) → p = .nil)

theorem pairsShow_lookup {levels : Nat} {t : Table} {fields : List (Key × Content)} {b : Box}
    (converted : convFields (convTable h levels) t = .ok fields) (iterable : Iterable t)
    (table : b.table = build (arraySize t).toInt fields) (key : Key) :
    PairsShow b key (pushContent b.state (fields.lookup key)) := by
  have same := convFields_eq_ok converted
  have distinct := distinct_of_converts same
  obtain ⟨l, visits, perm⟩ := (visits_build _ distinct).mpr ((iterable_iff same).mp iterable)
  rw [← table] at visits
  have pairs : Visits (lnextkey b.table) .nil (l.map fun kv => (pushKey kv.1, kv.2)) :=
    pairs_visits visits rfl
  have mem {c : Option Content} : (pushKey key, c) ∈ l.map (fun kv => (pushKey kv.1, kv.2)) ↔
      (key, c) ∈ slots fields := by
    rw [← perm.mem_iff, List.mem_map]
    constructor
    · rintro ⟨⟨key', c'⟩, mem, eq⟩
      obtain ⟨same, rfl⟩ := Prod.mk.inj eq
      obtain rfl := pushKey_injective same
      exact mem
    · exact fun mem => ⟨_, mem, rfl⟩
  refine ⟨_, _, pairs.visit (Nat.lt_succ_self _), fun c visited => ?_, fun fresh => ?_⟩
  · obtain ⟨v, field, rfl⟩ := mem_slots.mp (mem.mp visited)
    rw [(lookup_eq_some distinct).mpr field]
  · cases found : fields.lookup key with
    | none => rfl
    | some v =>
      have field := (lookup_eq_some distinct).mp found
      exact absurd (mem.mpr (mem_slots.mpr ⟨v, field, rfl⟩)) (fresh (some v))

theorem deepEq_pushKey {key : Key} {t : Tree} (same : DeepEq h (pushKey key) t) : t = newKey key := by
  cases key with
  | integer x =>
    cases same
    rfl
  | string s =>
    cases same
    rfl

theorem rawequal_newKey (key : Key) : (newKey key).rawequal (newKey key) = true := by
  cases key <;> simp [newKey, Tree.rawequal]

/-- The order of the fields does not matter to the value of a key. -/
theorem rawget_perm {entries fields : List (Value × Value)} (perm : entries.Perm fields)
    (distinct : (entries.map Prod.fst).Nodup) (k : Value) : rawget entries k = rawget fields k := by
  have distinct' : (fields.map Prod.fst).Nodup := (perm.map Prod.fst).nodup_iff.mp distinct
  by_cases nil : rawget entries k = .nil
  · by_contra ne
    rw [nil] at ne
    have mem := perm.mem_iff.mpr ((rawget_eq_iff distinct' (Ne.symm ne)).mp rfl)
    rw [(rawget_eq_iff distinct (Ne.symm ne)).mpr mem] at nil
    exact ne nil.symm
  · exact ((rawget_eq_iff distinct' nil).mpr
      (perm.mem_iff.mp ((rawget_eq_iff distinct nil).mp rfl))).symm

theorem deepEq_copyGet {fields : List (Value × Value)} {entries : List (Tree × Tree)}
    (same : DeepEqFields h fields entries) (key : Key) :
    DeepEq h (rawget fields (pushKey key)) (copyGet entries (newKey key)) := by
  induction fields generalizing entries with
  | nil =>
    cases same
    exact .nil
  | cons field fields ih =>
    cases same with
    | cons sameKey sameValue others =>
      rename_i k v k' v' entries
      by_cases eq : pushKey key = k
      · subst eq
        rw [deepEq_pushKey sameKey, rawget, List.lookup_cons, beq_self_eq_true, copyGet,
          List.find?_cons, rawequal_newKey]
        exact sameValue
      · have other := sameKey.rawequal (deepEq_newKey key) (Ne.symm eq)
        have skip : rawget ((k, v) :: fields) (pushKey key) = rawget fields (pushKey key) := by
          rw [rawget, rawget, List.lookup_cons, beq_eq_false_iff_ne.mpr eq]
        have skip' : copyGet ((k', v') :: entries) (newKey key) = copyGet entries (newKey key) := by
          rw [copyGet, copyGet, List.find?_cons, other]
        rw [skip, skip']
        exact ih others

/-- A copy has deeply equal values at the end of every path. -/
theorem deepEq_copyAt {v : Value} {t : Tree} (same : DeepEq h v t) (path : List Key) :
    DeepEq h (fieldAt h v path) (copyAt t path) := by
  induction path generalizing v t with
  | nil => exact same
  | cons key path ih =>
    cases same with
    | table perm fields =>
      rw [fieldAt, copyAt, rawget_perm perm (h _).distinct]
      exact ih (deepEq_copyGet fields key)
    | nil | boolean | integer | number | string | lightuserdata => exact .nil

/-! ### Boxes and the published table -/

/-- The box `b` at the end of a path in the published table `ref`, whose top-level state is `st`,
shows the value of a key, and so do `pairs` over the box and the deep copy of `st`, if no table in
the published one has the integer 0 as a key. -/
def ReadsAt (h : Heap) (ref : Nat) (st : TableState (SharedTable Content)) (path : List Key)
    (key : Key) (b : Box) : Prop :=
  ∃ p, lindex b (pushKey key) = some (.ok p) ∧
    Shows h st (fieldAt h (.table ref) (path ++ [key])) p ∧
    ((∀ ref', Reached h [.table ref] (.table ref') → Iterable (h ref')) →
      PairsShow b key p ∧ ∃ fuel entries, pushTable fuel st.table = some entries ∧
        DeepEq h (fieldAt h (.table ref) (path ++ [key]))
          (copyAt (.table entries) (path ++ [key])))

/-- A box reads like the published table, but for the keys that are names of fields of the
metatable, which give those fields. -/
theorem box_reads {levels ref : Nat} {st : TableState (SharedTable Content)}
    (built : convTable h levels ref = .ok st.table)
    (findable : ∀ ref', Reached h [.table ref] (.table ref') → Findable (h ref')) :
    (∀ path key ref', (∀ key' ∈ path ++ [key], ¬Reserved key') →
      fieldAt h (.table ref) path = .table ref' →
      ∃ b, boxAt st.box path = some b ∧ b.state = st ∧ ReadsAt h ref st path key b) ∧
    ∀ (b : Box) (name : List UInt8), name ∈ boxFields →
      lindex b (.string name) = some (.ok (.field name)) := by
  refine ⟨fun path key ref' plain inner => ?_, fun b name => lindex_reserved b⟩
  obtain ⟨reached, levels', t, here, built'⟩ := boxAt_eq (b := st.box) built findable
    (fun key' mem => plain key' (List.mem_append_left _ mem)) inner
  obtain ⟨levels'', fields, converted, table, index, shown⟩ := lindex_field (b := ⟨st, t⟩) built'
    (findable ref' reached) (plain key (List.mem_append_right _ List.mem_cons_self))
  refine ⟨⟨st, t⟩, here, rfl, _, index, ?_, fun iterable => ⟨?_, ?_⟩⟩
  · rw [fieldAt_concat, inner]
    exact shown
  · exact pairsShow_lookup converted (iterable ref' reached) table key
  · obtain ⟨fuel, entries, pushed, same⟩ := pushTable_copies built iterable
    exact ⟨fuel, entries, pushed, deepEq_copyAt same _⟩

/-- The key 1 of the empty table under the key 3 of the published one. -/
theorem box_reads_sparse : ∃ b, boxAt (TableState.box ⟨0, sharedSparse⟩) [.integer 3] = some b ∧
    b.state = ⟨0, sharedSparse⟩ ∧
    ReadsAt LuaSeri.sparseHeap 0 ⟨0, sharedSparse⟩ [.integer 3] (.integer 1) b := by
  have built : convTable LuaSeri.sparseHeap 2 0 =
      .ok (⟨0, sharedSparse⟩ : TableState (SharedTable Content)).table := rfl
  refine (box_reads built fun ref' reached => (sparse_iterable reached).2).1
    [.integer 3] (.integer 1) 1 ?_ rfl
  simp [Reserved]

/-- `{version = 5}`. -/
def versionTable : Table where
  entries := [(.string (ascii "version"), .integer 5)]
  rawlen := 0
  distinct := List.nodup_singleton _
  keys := List.forall_mem_singleton.mpr rfl
  values := List.forall_mem_singleton.mpr (by decide)
  fits := LuaSeri.emptyTable.fits
  present := Or.inl rfl
  absent := fun _ => rfl

/-- The key "version" gives the method of boxes and not the number. -/
theorem not_box_reads_version : ¬∀ (h : Heap) (levels ref : Nat)
    (st : TableState (SharedTable Content)) (path : List Key) (key : Key) (ref' : Nat),
    convTable h levels ref = .ok st.table →
    (∀ ref', Reached h [.table ref] (.table ref') → Iterable (h ref')) →
    fieldAt h (.table ref) path = .table ref' →
    ∃ b, boxAt st.box path = some b ∧ b.state = st ∧ ReadsAt h ref st path key b := by
  intro claim
  have iterable : Iterable versionTable :=
    ⟨by decide, linksFit_of_length_le (by decide)⟩
  obtain ⟨b, here, -, p, index, shown, -⟩ := claim (fun _ => versionTable) 1 0
    ⟨0, build 0 [(.string (ascii "version"), .integer 5)]⟩ [] (.string (ascii "version")) 0 rfl
    (fun _ _ => iterable) rfl
  cases here
  have field : lindex (TableState.box ⟨0, build 0 [(.string (ascii "version"), .integer 5)]⟩)
      (.string (ascii "version")) = some (.ok (.field (ascii "version"))) := lindex_reserved _ (by decide)
  cases index.symm.trans field
  have value : fieldAt (fun _ => versionTable) (.table 0) ([] ++ [.string (ascii "version")]) =
      .integer 5 := rfl
  rw [value] at shown
  cases shown

end Starnet.Sharedata
