import Starnet.Lib.Acyclic
import Starnet.Sharedata.Convert
import Starnet.Sharedata.Store

/-! Publishing a table. `conv_table` enters the tables in a table in the order of `lua_next`, until
it comes to a field that it cannot convert; nothing bounds how deep. -/

namespace Starnet.Sharedata

open LuaSeri (Value Heap Table Reached arraySize)
open SharedTable Lib Relation

variable {CName : Type} [DecidableEq CName]

/-- `lhostnew`, where `conv_table` goes `levels` tables deep. The error `depth` stands for a
recursion that goes on. -/
def lhostnew (h : Heap) (levels : Nat) (store : Store CName (SharedTable Content)) (name : CName)
    (ref : Nat) : Except ConvError Unit × Store CName (SharedTable Content) :=
  match convTable h levels ref with
  | .error e => (.error e, store)
  | .ok t => (.ok (), store.update name t)

/-! ### Equal tables -/

/-- The shared table has the key with the content, in its array part or in its hash part. -/
def Stores (t : SharedTable Content) (key : Key) (c : Content) : Prop :=
  (key, some c) ∈ t.hash.map Node.entry ∨
    ∃ i < t.array.length, t.array.getD i none = some c ∧ key = .integer (Int64.ofNat (i + 1))

mutual

/-- A shared table is equal to a Lua table: it stores the same fields. -/
inductive Mirrors (h : Heap) : Nat → SharedTable Content → Prop
  | intro {ref : Nat} {t : SharedTable Content} {fields : List (Key × Content)}
      (same : MirrorsFields h (h ref).entries fields)
      (stores : ∀ key c, Stores t key c ↔ (key, c) ∈ fields) : Mirrors h ref t

/-- Fields are equal one by one. -/
inductive MirrorsFields (h : Heap) : List (Value × Value) → List (Key × Content) → Prop
  | nil : MirrorsFields h [] []
  | cons {key : Key} {v : Value} {c : Content} {entries : List (Value × Value)}
      {fields : List (Key × Content)} (value : MirrorsValue h v c)
      (others : MirrorsFields h entries fields) :
      MirrorsFields h ((pushKey key, v) :: entries) ((key, c) :: fields)

/-- Equal values. -/
inductive MirrorsValue (h : Heap) : Value → Content → Prop
  | integer (x : Int64) : MirrorsValue h (.integer x) (.integer x)
  | number (bits : UInt64) : MirrorsValue h (.number bits) (.real bits)
  | string (s : List UInt8) : MirrorsValue h (.string s) (.string s)
  | boolean (b : Bool) : MirrorsValue h (.boolean b) (.boolean b)
  | table {ref : Nat} {t : SharedTable Content} (same : Mirrors h ref t) :
      MirrorsValue h (.table ref) (.table t)

end

variable {h : Heap}

theorem mirrorsValue_of_convValue {conv : Nat → Except ConvError (SharedTable Content)} {v : Value}
    {c : Content} (inner : ∀ ref t, conv ref = .ok t → Mirrors h ref t)
    (value : convValue conv v = .ok c) : MirrorsValue h v c := by
  cases v with
  | integer x =>
    cases value
    exact .integer x
  | number bits =>
    cases value
    exact .number bits
  | string s =>
    cases value
    exact .string s
  | boolean b =>
    cases value
    exact .boolean b
  | table ref =>
    obtain ⟨t, built, rfl⟩ := except_map_eq_ok value
    exact .table (inner ref t built)
  | nil | lightuserdata | object => cases value

theorem mirrorsFields_of_converts {conv : Nat → Except ConvError (SharedTable Content)}
    (inner : ∀ ref t, conv ref = .ok t → Mirrors h ref t) {entries : List (Value × Value)}
    {fields : List (Key × Content)} (same : List.Forall₂ (Converts conv) entries fields) :
    MirrorsFields h entries fields := by
  induction same with
  | nil => exact .nil
  | @cons entry shared entries fields first rest ih =>
    obtain ⟨k, v⟩ := entry
    obtain ⟨rfl, value⟩ := first
    exact .cons (mirrorsValue_of_convValue inner value) ih

theorem stores_build {n : Int} {fields : List (Key × Content)}
    (distinct : (fields.map Prod.fst).Nodup) (key : Key) (c : Content) :
    Stores (build n fields) key c ↔ (key, c) ∈ fields := by
  have stored := mem_slots_iff (n := n) distinct (key, some c)
  rw [mem_slots] at stored
  simpa [Stores, and_comm] using stored

/-- What `conv_table` builds is equal to its argument. -/
theorem mirrors_of_convTable {levels ref : Nat} {t : SharedTable Content}
    (built : convTable h levels ref = .ok t) : Mirrors h ref t := by
  induction levels generalizing ref t with
  | zero => cases built
  | succ levels ih =>
    obtain ⟨fields, converted, rfl⟩ := except_map_eq_ok built
    have same := convFields_eq_ok converted
    exact .intro (mirrorsFields_of_converts (fun ref t => ih) same)
      (stores_build (distinct_of_converts same))

/-! ### The tables that are entered -/

/-- A value that is no table can be converted. -/
def Scalar : Value → Prop
  | .integer _ | .number _ | .string _ | .boolean _ => True
  | _ => False

/-- A table can be converted as a whole: its keys are integers and strings, and its values are
scalars or tables of this kind. No such table contains itself. -/
inductive Convertible (h : Heap) : Nat → Prop
  | intro {ref : Nat} (keys : ∀ entry ∈ (h ref).entries, (sharedKey entry.1).isSome = true)
      (scalars : ∀ entry ∈ (h ref).entries, (∀ ref', entry.2 ≠ .table ref') → Scalar entry.2)
      (tables : ∀ entry ∈ (h ref).entries, ∀ ref', entry.2 = .table ref' → Convertible h ref') :
      Convertible h ref

/-- A field that `conv_table` converts and leaves behind. -/
def Sound (h : Heap) (entry : Value × Value) : Prop :=
  (sharedKey entry.1).isSome = true ∧
    match entry.2 with
    | .table ref => Convertible h ref
    | v => Scalar v

/-- In table `a`, `conv_table` comes to a field whose value is table `b`. -/
def Enters (h : Heap) (a b : Nat) : Prop :=
  ∃ before k after, (h a).entries = before ++ (k, .table b) :: after ∧
    (sharedKey k).isSome = true ∧ ∀ entry ∈ before, Sound h entry

/-! ### More levels -/

theorem mapM_cons_eq_error {ε α β : Type} {f : α → Except ε β} {x : α} {xs : List α} {e : ε} :
    (x :: xs).mapM f = .error e ↔
      f x = .error e ∨ (∃ y, f x = .ok y) ∧ xs.mapM f = .error e := by
  rw [List.mapM_cons]
  cases f x with
  | error e' => simp [bind, Except.bind]
  | ok y => cases xs.mapM f <;> simp [bind, Except.bind, pure, Except.pure]

theorem convTable_depth {levels ref : Nat} : convTable h (levels + 1) ref = .error .depth ↔
    (h ref).entries.mapM (convField (convTable h levels)) = .error .depth := by
  rw [convTable, convFields]
  cases (h ref).entries.mapM (convField (convTable h levels)) <;> simp [Except.map]

section

variable {conv conv' : Nat → Except ConvError (SharedTable Content)}
  (stable : ∀ ref, conv ref ≠ .error .depth → conv' ref = conv ref)

include stable

theorem convField_stable {field : Value × Value} (ended : convField conv field ≠ .error .depth) :
    convField conv' field = convField conv field := by
  obtain ⟨k, v⟩ := field
  have value : (sharedKey k).isSome = true → convValue conv' v = convValue conv v := by
    intro key
    cases v with
    | table ref =>
      have inner : conv ref ≠ .error .depth := by
        intro depth
        apply ended
        cases k with
        | integer | string => simp [convField, convValue, depth, Except.map]
        | nil | boolean | number | lightuserdata | table | object => cases key
      rw [convValue, convValue, stable ref inner]
    | nil | boolean | integer | number | string | lightuserdata | object => rfl
  cases k with
  | integer x => rw [convField, convField, value rfl]
  | string s => rw [convField, convField, value rfl]
  | nil | boolean | number | lightuserdata | table | object => rfl

theorem mapM_stable : ∀ {entries : List (Value × Value)},
    entries.mapM (convField conv) ≠ .error .depth →
    entries.mapM (convField conv') = entries.mapM (convField conv)
  | [], _ => rfl
  | field :: entries, ended => by
    have first : convField conv' field = convField conv field :=
      convField_stable stable fun depth => ended (mapM_cons_eq_error.mpr (Or.inl depth))
    rw [List.mapM_cons, List.mapM_cons, first]
    cases result : convField conv field with
    | error e => rfl
    | ok shared =>
      have others : entries.mapM (convField conv') = entries.mapM (convField conv) :=
        mapM_stable fun depth => ended (mapM_cons_eq_error.mpr (Or.inr ⟨⟨shared, result⟩, depth⟩))
      rw [others]

end

/-- A result other than the end of the levels does not change with more levels. -/
theorem convTable_stable {levels levels' : Nat} (le : levels ≤ levels') (ref : Nat)
    (ended : convTable h levels ref ≠ .error .depth) :
    convTable h levels' ref = convTable h levels ref := by
  induction levels generalizing levels' ref with
  | zero => exact absurd rfl ended
  | succ levels ih =>
    obtain ⟨levels', rfl⟩ := Nat.exists_eq_add_of_le' (Nat.zero_lt_of_lt le)
    have same : convFields (convTable h levels') (h ref) = convFields (convTable h levels) (h ref) :=
      mapM_stable (fun ref => ih (by omega) ref) fun depth => ended (convTable_depth.mpr depth)
    rw [convTable, convTable, same]

/-! ### Conversion -/

theorem convValue_scalar (conv : Nat → Except ConvError (SharedTable Content)) {v : Value}
    (scalar : Scalar v) : ∃ c, convValue conv v = .ok c := by
  cases v with
  | integer | number | string | boolean => exact ⟨_, rfl⟩
  | nil | lightuserdata | table | object => exact scalar.elim

theorem Convertible.exists_convTable {ref : Nat} (convertible : Convertible h ref) :
    ∃ levels t, convTable h levels ref = .ok t := by
  induction convertible with
  | @intro ref keys scalars tables ih =>
    have each : ∀ entry ∈ (h ref).entries, ∃ levels shared,
        convField (convTable h levels) entry = .ok shared := by
      rintro ⟨k, v⟩ mem
      by_cases scalar : ∀ ref', v ≠ .table ref'
      · obtain ⟨c, value⟩ := convValue_scalar (convTable h 0) (scalars _ mem scalar)
        exact ⟨0, exists_convField (keys _ mem) value⟩
      · push Not at scalar
        obtain ⟨ref', rfl⟩ := scalar
        obtain ⟨levels, t, built⟩ := ih _ mem ref' rfl
        have value : convValue (convTable h levels) (.table ref') = .ok (.table t) := by
          rw [convValue, built]
          rfl
        exact ⟨levels, exists_convField (keys _ mem) value⟩
    obtain ⟨levels, fields, converted⟩ := exists_convFields each
    refine ⟨levels + 1, build (arraySize (h ref)).toInt fields, ?_⟩
    rw [convTable, convFields, converted]
    rfl

theorem exists_convField_of_sound {entry : Value × Value} (sound : Sound h entry) :
    ∃ levels shared, convField (convTable h levels) entry = .ok shared := by
  obtain ⟨k, v⟩ := entry
  obtain ⟨key, value⟩ := sound
  cases v with
  | table ref =>
    obtain ⟨levels, t, built⟩ := Convertible.exists_convTable value
    have value : convValue (convTable h levels) (.table ref) = .ok (.table t) := by
      rw [convValue, built]
      rfl
    exact ⟨levels, exists_convField key value⟩
  | integer | number | string | boolean =>
    obtain ⟨c, value⟩ := convValue_scalar (convTable h 0) value
    exact ⟨0, exists_convField key value⟩
  | nil | lightuserdata | object => exact value.elim

/-- An acyclic table with integer and string keys is converted. -/
theorem exists_convTable {ref : Nat}
    (acyclic : Acc (fun child parent => ∃ k, (k, .table child) ∈ (h parent).entries) ref)
    (shareable : ∀ ref', Reached h [.table ref] (.table ref') → Shareable (h ref')) :
    ∃ levels t, convTable h levels ref = .ok t := by
  have convertible : Convertible h ref := by
    induction acyclic with
    | intro ref _ ih =>
      have each := shareable ref (.root List.mem_cons_self)
      refine .intro (fun entry mem => (each entry mem).1) (fun entry mem scalar => ?_) ?_
      · obtain ⟨k, v⟩ := entry
        obtain ⟨-, kind⟩ := each _ mem
        cases v with
        | integer | number | string | boolean => trivial
        | table ref' => exact absurd rfl (scalar ref')
        | nil => exact absurd rfl ((h ref).values _ mem)
        | lightuserdata | object => cases kind
      · rintro ⟨k, v⟩ mem ref' rfl
        exact ih ref' ⟨k, mem⟩ fun ref'' reached =>
          shareable ref'' (reached.trans (.value (.root List.mem_cons_self) mem))
  exact convertible.exists_convTable

theorem convertible_of_convTable {levels ref : Nat} {t : SharedTable Content}
    (built : convTable h levels ref = .ok t) : Convertible h ref := by
  induction levels generalizing ref t with
  | zero => cases built
  | succ levels ih =>
    obtain ⟨fields, converted, -⟩ := except_map_eq_ok built
    have same := convFields_eq_ok converted
    refine .intro ?_ ?_ ?_
    · intro entry mem
      obtain ⟨shared, -, eq, -⟩ := exists_converts same mem
      rw [eq, sharedKey_pushKey]
      rfl
    · intro entry mem scalar
      obtain ⟨shared, -, -, value⟩ := exists_converts same mem
      obtain ⟨k, v⟩ := entry
      cases v with
      | integer | number | string | boolean => trivial
      | table ref' => exact absurd rfl (scalar ref')
      | nil | lightuserdata | object => cases value
    · intro entry mem ref' eq
      obtain ⟨shared, -, -, value⟩ := exists_converts same mem
      rw [eq] at value
      obtain ⟨t', inner, -⟩ := except_map_eq_ok value
      exact ih inner

/-- A table that can be converted is, unless the levels end. -/
theorem Convertible.convTable_cases {ref : Nat} (convertible : Convertible h ref) (levels : Nat) :
    convTable h levels ref = .error .depth ∨ ∃ t, convTable h levels ref = .ok t := by
  by_cases ended : convTable h levels ref = .error .depth
  · exact Or.inl ended
  · obtain ⟨levels', t, built⟩ := convertible.exists_convTable
    have most := convTable_stable (le_max_left levels levels') ref ended
    have built' := convTable_mono (le_max_right levels levels') ref t built
    exact Or.inr ⟨t, most.symm.trans built'⟩

theorem Sound.convField_cases {entry : Value × Value} (sound : Sound h entry) (levels : Nat) :
    convField (convTable h levels) entry = .error .depth ∨
      ∃ shared, convField (convTable h levels) entry = .ok shared := by
  obtain ⟨k, v⟩ := entry
  obtain ⟨key, value⟩ := sound
  have result : convValue (convTable h levels) v = .error .depth ∨
      ∃ c, convValue (convTable h levels) v = .ok c := by
    cases v with
    | table ref =>
      rw [convValue]
      rcases Convertible.convTable_cases value levels with depth | ⟨t, built⟩
      · exact Or.inl (by rw [depth]; rfl)
      · exact Or.inr ⟨.table t, by rw [built]; rfl⟩
    | integer | number | string | boolean => exact Or.inr ⟨_, rfl⟩
    | nil | lightuserdata | object => exact value.elim
  rcases result with depth | ⟨c, ok⟩
  · left
    cases k with
    | integer | string =>
      rw [convField, depth]
      rfl
    | nil | boolean | number | lightuserdata | table | object => cases key
  · exact Or.inr (exists_convField key ok)

/-! ### The end of the recursion -/

/-- `conv_table` ends. -/
def Converges (h : Heap) (ref : Nat) : Prop := ∃ levels, convTable h levels ref ≠ .error .depth

/-- After sound fields, the levels end at a table if they do in it. -/
theorem mapM_depth {levels b : Nat} {k : Value} (key : (sharedKey k).isSome = true)
    (inner : convTable h levels b = .error .depth) (after : List (Value × Value)) :
    ∀ {before : List (Value × Value)}, (∀ entry ∈ before, Sound h entry) →
    (before ++ (k, .table b) :: after).mapM (convField (convTable h levels)) = .error .depth
  | [], _ => by
    have field : convField (convTable h levels) (k, .table b) = .error .depth := by
      cases k with
      | integer | string =>
        simp only [convField, convValue, inner]
        rfl
      | nil | boolean | number | lightuserdata | table | object => cases key
    exact mapM_cons_eq_error.mpr (Or.inl field)
  | entry :: before, sound => by
    have others := mapM_depth key inner after fun entry mem => sound entry (List.mem_cons_of_mem _ mem)
    rcases (sound entry List.mem_cons_self).convField_cases levels with depth | ok
    · exact mapM_cons_eq_error.mpr (Or.inl depth)
    · exact mapM_cons_eq_error.mpr (Or.inr ⟨ok, others⟩)

theorem ends_of_convTable {levels ref : Nat} (ended : convTable h levels ref ≠ .error .depth) :
    Ends (Enters h) ref := by
  induction levels generalizing ref with
  | zero => exact absurd rfl ended
  | succ levels ih =>
    refine ⟨_, fun b enters => ih fun depth => ended ?_⟩
    obtain ⟨before, k, after, entries, key, sound⟩ := enters
    rw [convTable_depth, entries]
    exact mapM_depth key depth after sound

/-- A field is sound, or `conv_table` raises an error at it, when it ends on the table that the
field has. -/
theorem field_cases (entry : Value × Value) (nonnil : entry.2 ≠ .nil)
    (inner : (sharedKey entry.1).isSome = true → ∀ ref, entry.2 = .table ref → Converges h ref) :
    Sound h entry ∨ ∃ levels e, e ≠ .depth ∧ convField (convTable h levels) entry = .error e := by
  obtain ⟨k, v⟩ := entry
  by_cases key : (sharedKey k).isSome = true
  · have raised {levels : Nat} {e : ConvError} (value : convValue (convTable h levels) v = .error e) :
        convField (convTable h levels) (k, v) = .error e := by
      cases k with
      | integer | string =>
        rw [convField, value]
        rfl
      | nil | boolean | number | lightuserdata | table | object => cases key
    cases v with
    | integer | number | string | boolean => exact Or.inl ⟨key, trivial⟩
    | nil => exact absurd rfl nonnil
    | lightuserdata p => exact Or.inr ⟨0, _, by simp, raised rfl⟩
    | object type ref => exact Or.inr ⟨0, _, by simp, raised rfl⟩
    | table ref =>
      obtain ⟨levels, ended⟩ := inner key ref rfl
      cases result : convTable h levels ref with
      | ok t => exact Or.inl ⟨key, convertible_of_convTable result⟩
      | error e =>
        rw [result] at ended
        refine Or.inr ⟨levels, e, fun eq => ended (by rw [eq]), raised ?_⟩
        rw [convValue, result]
        rfl
  · right
    cases k with
    | integer | string => exact absurd rfl key
    | nil | boolean | number | lightuserdata | table | object => exact ⟨0, _, by simp, rfl⟩

/-- After sound fields, the loop ends on the others if the recursion ends in each table that is
entered. -/
theorem mapM_converges {ref : Nat} (inner : ∀ b, Enters h ref b → Converges h b)
    {before after : List (Value × Value)} (entries : (h ref).entries = before ++ after)
    (sound : ∀ entry ∈ before, Sound h entry) :
    ∃ levels, after.mapM (convField (convTable h levels)) ≠ .error .depth := by
  induction after generalizing before with
  | nil => exact ⟨0, by simp [pure, Except.pure]⟩
  | cons entry after ih =>
    have mem : entry ∈ (h ref).entries := by
      rw [entries]
      exact List.mem_append_right _ List.mem_cons_self
    have entered : (sharedKey entry.1).isSome = true → ∀ ref', entry.2 = .table ref' →
        Converges h ref' := by
      intro key ref' eq
      obtain ⟨k, v⟩ := entry
      cases eq
      exact inner ref' ⟨before, k, after, entries, key, sound⟩
    rcases field_cases entry ((h ref).values entry mem) entered with here | ⟨levels, e, ne, raised⟩
    · have sound' : ∀ entry' ∈ before ++ [entry], Sound h entry' := by
        intro entry' mem
        rcases List.mem_append.mp mem with mem | mem
        · exact sound entry' mem
        · exact List.mem_singleton.mp mem ▸ here
      obtain ⟨levels, ended⟩ := ih (by rw [entries, List.append_assoc, List.singleton_append]) sound'
      obtain ⟨levels', shared, ok⟩ := exists_convField_of_sound here
      -- the levels are enough for the field and for the fields after it
      have first : convField (convTable h (max levels levels')) entry = .ok shared :=
        convField_mono (convTable_mono (le_max_right _ _)) ok
      have others : after.mapM (convField (convTable h (max levels levels'))) =
          after.mapM (convField (convTable h levels)) :=
        mapM_stable (fun ref => convTable_stable (le_max_left _ _) ref) ended
      refine ⟨max levels levels', fun depth => ?_⟩
      rcases mapM_cons_eq_error.mp depth with depth | ⟨-, depth⟩
      · cases first.symm.trans depth
      · exact ended (others.symm.trans depth)
    · refine ⟨levels, fun depth => ?_⟩
      rcases mapM_cons_eq_error.mp depth with depth | ⟨⟨shared, ok⟩, -⟩
      · cases raised.symm.trans depth
        exact ne rfl
      · cases raised.symm.trans ok

theorem converges_of_ends {ref : Nat} (ends : Ends (Enters h) ref) : Converges h ref := by
  induction ends with
  | intro ref _ ih =>
    obtain ⟨levels, ended⟩ := mapM_converges ih (List.nil_append _).symm (List.forall_mem_nil _)
    exact ⟨levels + 1, fun depth => ended (convTable_depth.mp depth)⟩

/-! ### Publishing -/

/-- `sharedata.new` and `sharedata.update` end: they raise an error and leave the store as it is, or
they publish a table that is equal to the one that they get. -/
def Publishes (h : Heap) (store : Store CName (SharedTable Content)) (name : CName) (ref : Nat) :
    Prop :=
  (∃ levels e, e ≠ .depth ∧ lhostnew h levels store name ref = (.error e, store)) ∨
    ∃ levels t, Mirrors h ref t ∧ lhostnew h levels store name ref = (.ok (), store.update name t)

omit [DecidableEq CName] in
theorem enters_reached {a b : Nat} (enters : Enters h a b) :
    ∃ k, (k, .table b) ∈ (h a).entries := by
  obtain ⟨before, k, after, entries, -⟩ := enters
  exact ⟨k, entries ▸ List.mem_append_right _ List.mem_cons_self⟩

theorem publishes_iff_converges (store : Store CName (SharedTable Content)) (name : CName)
    (ref : Nat) : Publishes h store name ref ↔ Converges h ref := by
  constructor
  · rintro (⟨levels, e, ne, eq⟩ | ⟨levels, t, -, eq⟩)
    · refine ⟨levels, fun depth => ?_⟩
      rw [lhostnew, depth] at eq
      cases eq
      exact ne rfl
    · refine ⟨levels, fun depth => ?_⟩
      rw [lhostnew, depth] at eq
      cases eq
  · rintro ⟨levels, ended⟩
    cases result : convTable h levels ref with
    | error e =>
      refine Or.inl ⟨levels, e, fun eq => ended ?_, by rw [lhostnew, result]⟩
      rw [result, eq]
    | ok t => exact Or.inr ⟨levels, t, mirrors_of_convTable result, by rw [lhostnew, result]⟩

/-- `t[1] = t`. -/
def loopTable : Table where
  entries := [(.integer 1, .table 0)]
  rawlen := 1
  distinct := List.nodup_singleton _
  keys := List.forall_mem_singleton.mpr rfl
  values := List.forall_mem_singleton.mpr (by decide)
  fits := lt_of_lt_of_le Nat.one_lt_two (Nat.le_self_pow (by decide) 2)
  present := Or.inr (by decide)
  absent := fun _ => rfl

end Starnet.Sharedata
