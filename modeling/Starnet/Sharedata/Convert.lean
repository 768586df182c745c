import Starnet.Seri.RoundTrip
import Starnet.Sharedata.Iterate

/-! Shared tables and Lua tables: `conv_table` builds a shared table from a Lua table, `pairs`
iterates over a box, and `push_table` makes a new Lua table from a shared one. The stacks are taken
as large enough for the levels of a table. -/

namespace Starnet.Sharedata

open LuaSeri (Value Tree Heap Table arraySize)
open SharedTable Iteration

/-- `SharedValue` of a type other than `VALUETYPE_NIL`. -/
inductive Content
  | real (bits : UInt64)
  | string (s : List UInt8)
  | boolean (b : Bool)
  | integer (x : Int64)
  | table (t : SharedTable Content)

/-! ### From Lua -/

/-- How `conv_table` raises: with a key that is a float or of another type, or with a value whose
type is not supported. `depth` stands for a table that has more levels than the model looks at. -/
inductive ConvError
  | invalidKey (bits : UInt64)
  | invalidKeyType (typename : String)
  | unsupportValueType (typename : String)
  | depth
  deriving DecidableEq, Repr

/-- `lua_typename` of a value. -/
def typename : Value → String
  | .nil => "nil"
  | .boolean _ => "boolean"
  | .integer _ => "number"
  | .number _ => "number"
  | .string _ => "string"
  | .lightuserdata _ => "userdata"
  | .table _ => "table"
  | .object type _ => type.typename

/-- `conv_value`. -/
def convValue (conv : Nat → Except ConvError (SharedTable Content)) :
    Value → Except ConvError Content
  | .integer x => .ok (.integer x)
  | .number bits => .ok (.real bits)
  | .string s => .ok (.string s)
  | .boolean b => .ok (.boolean b)
  | .table ref => (conv ref).map .table
  | v => .error (.unsupportValueType (typename v))

/-- One round of the loop of `conv_table`. -/
def convField (conv : Nat → Except ConvError (SharedTable Content)) (field : Value × Value) :
    Except ConvError (Key × Content) :=
  match field.1 with
  | .integer x => (convValue conv field.2).map fun v => (.integer x, v)
  | .number bits => .error (.invalidKey bits)
  | .string s => (convValue conv field.2).map fun v => (.string s, v)
  | key => .error (.invalidKeyType (typename key))

/-- The keys and values that `conv_table` gives to `SetArray` and `AddHash`. -/
def convFields (conv : Nat → Except ConvError (SharedTable Content)) (t : Table) :
    Except ConvError (List (Key × Content)) :=
  t.entries.mapM (convField conv)

/-- `conv_table`. -/
def convTable (h : Heap) : (levels : Nat) → (ref : Nat) → Except ConvError (SharedTable Content)
  | 0, _ => .error .depth
  | levels + 1, ref =>
    (convFields (convTable h levels) (h ref)).map (build (arraySize (h ref)).toInt)

/-! ### To Lua -/

/-- `push_key`. -/
def pushKey : Key → Value
  | .integer x => .integer x
  | .string s => .string s

/-- `lnextkey` on a box with the control variable `arg`: the key and value of the next entry, if
there is one. It is `none` when the search for the key does not end. -/
def lnextkey (t : SharedTable Content) (arg : Value) : Option (Option (Value × Option Content)) :=
  let next (prev : Key) := (t.nextKey prev).map fun found => found.map fun kv => (pushKey kv.1, kv.2)
  match arg with
  | .nil => next (.integer 0)
  | .integer x => next (.integer x)
  | .string s => next (.string s)
  | _ => some none

/-- The key that `push_key` pushes, in a new table. -/
def newKey : Key → Tree
  | .integer x => .integer x
  | .string s => .string s

/-- `push_value`, or `push_table` on a table. -/
def pushValue (push : SharedTable Content → Option (List (Tree × Tree))) :
    Option Content → Option Tree
  | none => some .nil
  | some (.real bits) => some (.number bits)
  | some (.integer x) => some (.integer x)
  | some (.boolean b) => some (.boolean b)
  | some (.string s) => some (.string s)
  | some (.table t) => (push t).map .table

/-- The loop of `push_table`; the result is `none` when the fuel runs out. -/
def pushLoop (push : SharedTable Content → Option (List (Tree × Tree))) (t : SharedTable Content) :
    (fuel : Nat) → Key → List (Tree × Tree) → Option (List (Tree × Tree))
  | 0, _, _ => none
  | fuel + 1, prev, entries =>
    match t.nextKey prev with
    | none => none
    | some none => some entries
    | some (some kv) =>
      match pushValue push kv.2 with
      | none => none
      | some value => pushLoop push t fuel kv.1 (Tree.assign entries (newKey kv.1) value)

/-- `push_table`: the fields of the new table. -/
def pushTable : (fuel : Nat) → SharedTable Content → Option (List (Tree × Tree))
  | 0, _ => none
  | fuel + 1, t => pushLoop (pushTable fuel) t fuel (.integer 0) []

/-! ### More fuel -/

theorem pushValue_mono {push push' : SharedTable Content → Option (List (Tree × Tree))}
    (le : ∀ t entries, push t = some entries → push' t = some entries) {v : Option Content}
    {value : Tree} (pushed : pushValue push v = some value) : pushValue push' v = some value := by
  cases v with
  | none => exact pushed
  | some v =>
    cases v with
    | table t =>
      obtain ⟨entries, inner, rfl⟩ := Option.map_eq_some_iff.mp pushed
      exact Option.map_eq_some_iff.mpr ⟨entries, le t entries inner, rfl⟩
    | real bits => exact pushed
    | string s => exact pushed
    | boolean b => exact pushed
    | integer x => exact pushed

theorem pushLoop_mono {push push' : SharedTable Content → Option (List (Tree × Tree))}
    (le : ∀ t entries, push t = some entries → push' t = some entries) {t : SharedTable Content}
    {fuel fuel' : Nat} (more : fuel ≤ fuel') {prev : Key} {entries result : List (Tree × Tree)}
    (pushed : pushLoop push t fuel prev entries = some result) :
    pushLoop push' t fuel' prev entries = some result := by
  induction fuel generalizing fuel' prev entries with
  | zero => cases pushed
  | succ fuel ih =>
    obtain ⟨fuel', rfl⟩ : ∃ n, fuel' = n + 1 := ⟨fuel' - 1, by omega⟩
    rw [pushLoop] at pushed ⊢
    split at pushed
    · cases pushed
    · exact pushed
    · rename_i kv next
      split at pushed
      · cases pushed
      · rename_i value here
        have here' := pushValue_mono le here
        rw [here']
        exact ih (by omega) pushed

theorem pushTable_mono {fuel fuel' : Nat} (more : fuel ≤ fuel') (t : SharedTable Content)
    (entries : List (Tree × Tree)) (pushed : pushTable fuel t = some entries) :
    pushTable fuel' t = some entries := by
  induction fuel generalizing fuel' t entries with
  | zero => cases pushed
  | succ fuel ih =>
    obtain ⟨fuel', rfl⟩ : ∃ n, fuel' = n + 1 := ⟨fuel' - 1, by omega⟩
    exact pushLoop_mono (ih (by omega)) (by omega) pushed

/-! ### Iterating over a box -/

theorem lnextkey_pushKey (t : SharedTable Content) (key : Key) :
    lnextkey t (pushKey key) =
      (t.nextKey key).map fun found => found.map fun kv => (pushKey kv.1, kv.2) := by
  cases key <;> rfl

/-- `pairs` over a box visits what `NextKey` does. -/
theorem pairs_visits {t : SharedTable Content} {prev : Key} {arg : Value}
    {l : List (Key × Option Content)} (visits : Visits t.nextKey prev l)
    (here : lnextkey t arg = (t.nextKey prev).map fun found => found.map fun kv => (pushKey kv.1, kv.2)) :
    Visits (lnextkey t) arg (l.map fun kv => (pushKey kv.1, kv.2)) := by
  induction visits generalizing arg with
  | last ends =>
    rw [ends] at here
    exact .last here
  | step succ rest ih =>
    rw [succ] at here
    exact .step here (ih (lnextkey_pushKey t _))

/-! ### Fields -/

open LuaSeri (DeepEq DeepEqFields Reached forall₂_of_mapM rawget)

variable {h : Heap} {conv : Nat → Except ConvError (SharedTable Content)}

/-- An integer or string key as a key of the shared table. -/
def sharedKey : Value → Option Key
  | .integer x => some (.integer x)
  | .string s => some (.string s)
  | _ => none

/-- The fields with integer and string keys. -/
def sharedFields (t : Table) : List (Key × Value) :=
  t.entries.filterMap fun field => (sharedKey field.1).map fun key => (key, field.2)

/-- The shared table of `t` can be iterated over: the integer 0 is not a key, and the links of its
hash part fit. -/
def Iterable (t : Table) : Prop :=
  .integer 0 ∉ (sharedFields t).map Prod.fst ∧
    LinksFit (hashItems (arraySize t).toInt (sharedFields t))

/-- A field and what `conv_table` makes of it. -/
def Converts (conv : Nat → Except ConvError (SharedTable Content)) (field : Value × Value)
    (shared : Key × Content) : Prop :=
  field.1 = pushKey shared.1 ∧ convValue conv field.2 = .ok shared.2

theorem except_map_eq_ok {ε α β : Type} {x : Except ε α} {f : α → β} {b : β}
    (eq : x.map f = .ok b) : ∃ a, x = .ok a ∧ f a = b := by
  cases x with
  | error e => cases eq
  | ok a => exact ⟨a, rfl, Except.ok.inj eq⟩

theorem mapM_of_forall₂ {ε α β : Type} {f : α → Except ε β} {xs : List α} {ys : List β}
    (same : List.Forall₂ (fun x y => f x = .ok y) xs ys) : xs.mapM f = .ok ys := by
  induction same with
  | nil => rfl
  | cons first rest ih =>
    rw [List.mapM_cons, first, ih]
    rfl

theorem convField_eq_ok {field : Value × Value} {shared : Key × Content}
    (eq : convField conv field = .ok shared) : Converts conv field shared := by
  obtain ⟨key, v⟩ := field
  cases key with
  | integer x =>
    obtain ⟨c, value, rfl⟩ := except_map_eq_ok eq
    exact ⟨rfl, value⟩
  | string s =>
    obtain ⟨c, value, rfl⟩ := except_map_eq_ok eq
    exact ⟨rfl, value⟩
  | nil | boolean | number | lightuserdata | table | object => cases eq

theorem convFields_eq_ok {t : Table} {fields : List (Key × Content)}
    (eq : convFields conv t = .ok fields) : List.Forall₂ (Converts conv) t.entries fields :=
  (forall₂_of_mapM eq).imp fun _ _ => convField_eq_ok

theorem sharedKey_pushKey (key : Key) : sharedKey (pushKey key) = some key := by
  cases key <;> rfl

theorem keys_of_converts {entries : List (Value × Value)} {fields : List (Key × Content)}
    (same : List.Forall₂ (Converts conv) entries fields) :
    entries.map Prod.fst = (fields.map Prod.fst).map pushKey ∧
      entries.filterMap (fun field => sharedKey field.1) = fields.map Prod.fst := by
  induction same with
  | nil => exact ⟨rfl, rfl⟩
  | cons first rest ih =>
    rw [List.filterMap_cons, first.1, sharedKey_pushKey, List.map_cons, List.map_cons, List.map_cons,
      first.1, ih.1, ih.2]
    exact ⟨rfl, rfl⟩

theorem map_fst_sharedFields (t : Table) :
    (sharedFields t).map Prod.fst = t.entries.filterMap fun field => sharedKey field.1 := by
  rw [sharedFields, List.map_filterMap]
  congr 1
  funext field
  cases sharedKey field.1 <;> rfl

theorem distinct_of_converts {t : Table} {fields : List (Key × Content)}
    (same : List.Forall₂ (Converts conv) t.entries fields) : (fields.map Prod.fst).Nodup := by
  have distinct := t.distinct
  rw [(keys_of_converts same).1] at distinct
  exact distinct.of_map

theorem map_fst_hashItems {V : Type} (n : Int) (fields : List (Key × V)) :
    (hashItems n fields).map Prod.fst = (fields.map Prod.fst).filter fun key => !inArray n key := by
  rw [hashItems, List.map_map, List.filter_map]
  rfl

theorem linksFit_iff {V : Type} {items : List (Key × Option V)} : LinksFit items ↔
    ∀ i, 2 ^ 31 ≤ i → i < (items.map Prod.fst).length →
      ∃ key ∈ items.map Prod.fst, mainSlot (items.map Prod.fst).length key = i := by
  simp [LinksFit]

/-- Whether the links fit depends on the keys alone. -/
theorem linksFit_congr {V W : Type} {n : Int} {fields : List (Key × V)} {fields' : List (Key × W)}
    (keys : fields.map Prod.fst = fields'.map Prod.fst) (fits : LinksFit (hashItems n fields)) :
    LinksFit (hashItems n fields') := by
  rw [linksFit_iff, map_fst_hashItems] at fits ⊢
  rwa [← keys]

theorem iterable_iff {t : Table} {fields : List (Key × Content)}
    (same : List.Forall₂ (Converts conv) t.entries fields) : Iterable t ↔
      .integer 0 ∉ fields.map Prod.fst ∧ LinksFit (hashItems (arraySize t).toInt fields) := by
  have keys := (keys_of_converts same).2
  rw [← map_fst_sharedFields] at keys
  rw [Iterable, keys]
  exact and_congr_right fun _ => ⟨linksFit_congr keys, linksFit_congr keys.symm⟩

/-! ### Deep copies -/

/-- What `push_value` gives for a field, with enough fuel. -/
def Copies (h : Heap) (fuel : Nat) (field : Value × Value) (kv : Key × Option Content) : Prop :=
  field.1 = pushKey kv.1 ∧ field.2 ≠ .nil ∧
    ∃ value, pushValue (pushTable fuel) kv.2 = some value ∧ DeepEq h field.2 value

theorem deepEq_newKey (key : Key) : DeepEq h (pushKey key) (newKey key) := by
  cases key with
  | integer x => exact .integer x
  | string s => exact .string s

theorem pushLoop_copies {t : SharedTable Content} {fuel : Nat} {prev : Key}
    {l : List (Key × Option Content)} (visits : Visits t.nextKey prev l)
    {fields : List (Value × Value)} (copies : List.Forall₂ (Copies h fuel) fields l)
    {done : List (Value × Value)} {entries : List (Tree × Tree)}
    (same : DeepEqFields h done entries) (distinct : ((done ++ fields).map Prod.fst).Nodup)
    {rounds : Nat} (enough : l.length < rounds) :
    ∃ result, pushLoop (pushTable fuel) t rounds prev entries = some result ∧
      DeepEqFields h (done ++ fields) result := by
  induction visits generalizing fields done entries rounds with
  | last ends =>
    obtain ⟨rounds, rfl⟩ : ∃ n, rounds = n + 1 := ⟨rounds - 1, by omega⟩
    cases copies
    rw [List.append_nil]
    exact ⟨entries, by rw [pushLoop, ends], same⟩
  | step succ rest ih =>
    rw [List.length_cons] at enough
    obtain ⟨rounds, rfl⟩ : ∃ n, rounds = n + 1 := ⟨rounds - 1, by omega⟩
    cases copies with
    | @cons field _ fields _ first others =>
      obtain ⟨key, nonnil, value, pushed, eq⟩ := first
      rw [List.append_cons] at distinct
      have fresh : field.1 ∉ done.map Prod.fst := by
        intro mem
        rw [List.map_append, List.nodup_append, List.map_append, List.nodup_append] at distinct
        exact distinct.1.2.2 _ mem _ (List.mem_singleton.mpr rfl) rfl
      have assigned := same.assign (key ▸ deepEq_newKey _) eq fresh
      rw [if_neg nonnil] at assigned
      have bound : _ < rounds := Nat.lt_of_succ_lt_succ enough
      obtain ⟨result, looped, same'⟩ := ih others assigned distinct bound
      rw [List.append_cons]
      refine ⟨result, ?_, same'⟩
      rw [pushLoop, succ]
      simp only [pushed]
      exact looped

theorem Copies.mono {fuel fuel' : Nat} {field : Value × Value} {kv : Key × Option Content}
    (copies : Copies h fuel field kv) (more : fuel ≤ fuel') : Copies h fuel' field kv := by
  obtain ⟨key, nonnil, value, pushed, eq⟩ := copies
  exact ⟨key, nonnil, value, pushValue_mono (pushTable_mono more) pushed, eq⟩

/-- Enough fuel for each field is enough for all. -/
theorem exists_copies {entries : List (Value × Value)} {fields : List (Key × Content)}
    (same : List.Forall₂ (Converts conv) entries fields)
    (each : ∀ field ∈ entries, ∀ shared, Converts conv field shared →
      ∃ fuel, Copies h fuel field (shared.1, some shared.2)) :
    ∃ fuel, List.Forall₂ (Copies h fuel) entries (slots fields) := by
  induction same with
  | nil => exact ⟨0, .nil⟩
  | cons first rest ih =>
    obtain ⟨fuel, here⟩ := each _ List.mem_cons_self _ first
    obtain ⟨fuel', others⟩ := ih fun field mem => each field (List.mem_cons_of_mem _ mem)
    refine ⟨max fuel fuel', .cons (here.mono (by omega)) ?_⟩
    exact others.imp fun _ _ copies => copies.mono (by omega)

/-- A table that can be iterated over at every level is copied. -/
theorem pushTable_copies {levels ref : Nat} {t : SharedTable Content}
    (built : convTable h levels ref = .ok t)
    (iterable : ∀ ref', Reached h [.table ref] (.table ref') → Iterable (h ref')) :
    ∃ fuel entries, pushTable fuel t = some entries ∧ DeepEq h (.table ref) (.table entries) := by
  induction levels generalizing ref t with
  | zero => cases built
  | succ levels ih =>
    obtain ⟨fields, converted, rfl⟩ := except_map_eq_ok built
    have same := convFields_eq_ok converted
    have distinct := distinct_of_converts same
    have fine := (iterable_iff same).mp (iterable ref (.root List.mem_cons_self))
    obtain ⟨l, visits, perm⟩ := (visits_build _ distinct).mpr fine
    -- each field is copied with some fuel
    have each : ∀ field ∈ (h ref).entries, ∀ shared, Converts (convTable h levels) field shared →
        ∃ fuel, Copies h fuel field (shared.1, some shared.2) := by
      rintro ⟨k, v⟩ mem ⟨key, c⟩ ⟨eq, value⟩
      have nonnil := (h ref).values _ mem
      cases v with
      | integer x =>
        cases value
        exact ⟨0, eq, nonnil, _, rfl, .integer x⟩
      | number bits =>
        cases value
        exact ⟨0, eq, nonnil, _, rfl, .number bits⟩
      | string s =>
        cases value
        exact ⟨0, eq, nonnil, _, rfl, .string s⟩
      | boolean b =>
        cases value
        exact ⟨0, eq, nonnil, _, rfl, .boolean b⟩
      | table ref' =>
        obtain ⟨t, inner, rfl⟩ := except_map_eq_ok value
        obtain ⟨fuel, entries, pushed, same⟩ := ih inner fun ref'' reached =>
          iterable ref'' (reached.trans (.value (.root List.mem_cons_self) mem))
        exact ⟨fuel, eq, nonnil, _, Option.map_eq_some_iff.mpr ⟨entries, pushed, rfl⟩, same⟩
      | nil | lightuserdata | object => cases value
    obtain ⟨fuel, copies⟩ := exists_copies same each
    obtain ⟨order, copies', perm'⟩ := List.perm_comp_forall₂ perm copies.flip
    have order_distinct : ((([] : List (Value × Value)) ++ order).map Prod.fst).Nodup :=
      ((perm'.map Prod.fst).nodup_iff).mpr (h ref).distinct
    obtain ⟨entries, pushed, same'⟩ := pushLoop_copies visits copies'.flip .nil order_distinct
      (Nat.lt_succ_self _)
    refine ⟨max fuel (l.length + 1) + 1, entries, ?_, .table perm'.symm same'⟩
    exact pushLoop_mono (pushTable_mono (by omega)) (by omega) pushed

/-! ### Iterating at every level -/

/-- Calling `NextKey`, or iterating over a box, visits each field once and ends. -/
def Enumerates (t : SharedTable Content) (fields : List (Key × Content)) : Prop :=
  (∃ fuel l, visit t.nextKey fuel (.integer 0) = some l ∧ l.Perm (slots fields)) ∧
    ∃ fuel l, visit (lnextkey t) fuel .nil = some l ∧
      l.Perm ((slots fields).map fun kv => (pushKey kv.1, kv.2))

theorem enumerates_iff {t : SharedTable Content} {fields : List (Key × Content)} :
    Enumerates t fields ↔ ∃ l, Visits t.nextKey (.integer 0) l ∧ l.Perm (slots fields) := by
  constructor
  · rintro ⟨⟨fuel, l, visited, perm⟩, -⟩
    exact ⟨l, visits_of_visit visited, perm⟩
  · rintro ⟨l, visits, perm⟩
    have pairs : Visits (lnextkey t) .nil _ := pairs_visits visits rfl
    exact ⟨⟨_, l, visits.visit (Nat.lt_succ_self _), perm⟩,
      ⟨_, _, pairs.visit (Nat.lt_succ_self _), perm.map _⟩⟩

theorem exists_converts {entries : List (Value × Value)} {fields : List (Key × Content)}
    (same : List.Forall₂ (Converts conv) entries fields) {field : Value × Value}
    (mem : field ∈ entries) : ∃ shared ∈ fields, Converts conv field shared := by
  induction same with
  | nil => cases mem
  | cons first rest ih =>
    rcases List.mem_cons.mp mem with rfl | mem
    · exact ⟨_, List.mem_cons_self, first⟩
    · obtain ⟨shared, mem, converts⟩ := ih mem
      exact ⟨shared, List.mem_cons_of_mem _ mem, converts⟩

/-- The tables in a converted table are converted. -/
theorem reached_converted {levels ref : Nat} {t : SharedTable Content}
    (built : convTable h levels ref = .ok t) {v : Value} (reached : Reached h [.table ref] v) :
    ∀ ref', v = .table ref' → ∃ levels fields, convFields (convTable h levels) (h ref') = .ok fields := by
  induction reached with
  | root mem =>
    rintro ref' rfl
    cases List.mem_singleton.mp mem
    cases levels with
    | zero => cases built
    | succ levels =>
      obtain ⟨fields, converted, -⟩ := except_map_eq_ok built
      exact ⟨levels, fields, converted⟩
  | key _ mem ih =>
    rintro ref' rfl
    obtain ⟨levels, fields, converted⟩ := ih _ rfl
    obtain ⟨⟨key, c⟩, -, eq, -⟩ := exists_converts (convFields_eq_ok converted) mem
    cases key <;> cases eq
  | value _ mem ih =>
    rintro ref' rfl
    obtain ⟨levels, fields, converted⟩ := ih _ rfl
    obtain ⟨shared, -, -, value⟩ := exists_converts (convFields_eq_ok converted) mem
    obtain ⟨t, inner, -⟩ := except_map_eq_ok value
    cases levels with
    | zero => cases inner
    | succ levels =>
      obtain ⟨fields, converted, -⟩ := except_map_eq_ok inner
      exact ⟨levels, fields, converted⟩

/-- Every table in the table `ref` is enumerated once shared. -/
def EnumeratesAll (h : Heap) (ref : Nat) : Prop :=
  ∀ ref', Reached h [.table ref] (.table ref') → ∀ levels fields,
    convFields (convTable h levels) (h ref') = .ok fields →
      Enumerates (build (arraySize (h ref')).toInt fields) fields

theorem enumeratesAll_iff {levels ref : Nat} {t : SharedTable Content}
    (built : convTable h levels ref = .ok t) : EnumeratesAll h ref ↔
      ∀ ref', Reached h [.table ref] (.table ref') → Iterable (h ref') := by
  have one : ∀ ref' levels fields, convFields (convTable h levels) (h ref') = .ok fields →
      (Enumerates (build (arraySize (h ref')).toInt fields) fields ↔ Iterable (h ref')) := by
    intro ref' levels fields converted
    have same := convFields_eq_ok converted
    rw [enumerates_iff, visits_build _ (distinct_of_converts same), iterable_iff same]
  constructor
  · intro all ref' reached
    obtain ⟨levels, fields, converted⟩ := reached_converted built reached ref' rfl
    exact (one ref' levels fields converted).mp (all ref' reached levels fields converted)
  · intro iterable ref' reached levels fields converted
    exact (one ref' levels fields converted).mpr (iterable ref' reached)

/-- Iteration over a shared table, its nested tables and the deep copy of it are right if and only
if no table in it has the integer 0 as a key, and the links of each fit. -/
theorem shared_iteration {h : Heap} {levels ref : Nat} {t : SharedTable Content}
    (built : convTable h levels ref = .ok t) :
    (EnumeratesAll h ref ∧
        ∃ fuel entries, pushTable fuel t = some entries ∧ DeepEq h (.table ref) (.table entries)) ↔
      ∀ ref', Reached h [.table ref] (.table ref') → Iterable (h ref') := by
  constructor
  · rintro ⟨all, -⟩
    exact (enumeratesAll_iff built).mp all
  · intro iterable
    exact ⟨(enumeratesAll_iff built).mpr iterable, pushTable_copies built iterable⟩

/-! ### What is converted -/

variable {conv' : Nat → Except ConvError (SharedTable Content)}

theorem convField_mono (le : ∀ ref t, conv ref = .ok t → conv' ref = .ok t) {field : Value × Value}
    {shared : Key × Content} (eq : convField conv field = .ok shared) :
    convField conv' field = .ok shared := by
  have value : ∀ {v c}, convValue conv v = .ok c → convValue conv' v = .ok c := by
    intro v c eq
    cases v with
    | table ref =>
      obtain ⟨t, inner, rfl⟩ := except_map_eq_ok eq
      rw [convValue, le ref t inner]
      rfl
    | nil | lightuserdata | object => cases eq
    | integer | number | string | boolean => exact eq
  obtain ⟨key, v⟩ := field
  cases key with
  | integer x =>
    obtain ⟨c, inner, rfl⟩ := except_map_eq_ok eq
    rw [convField, value inner]
    rfl
  | string s =>
    obtain ⟨c, inner, rfl⟩ := except_map_eq_ok eq
    rw [convField, value inner]
    rfl
  | nil | boolean | number | lightuserdata | table | object => cases eq

theorem convTable_mono {levels levels' : Nat} (more : levels ≤ levels') (ref : Nat)
    (t : SharedTable Content) (built : convTable h levels ref = .ok t) :
    convTable h levels' ref = .ok t := by
  induction levels generalizing levels' ref t with
  | zero => cases built
  | succ levels ih =>
    obtain ⟨levels', rfl⟩ : ∃ n, levels' = n + 1 := ⟨levels' - 1, by omega⟩
    obtain ⟨fields, converted, rfl⟩ := except_map_eq_ok built
    have same := forall₂_of_mapM converted
    have converted' : convFields (convTable h levels') (h ref) = .ok fields :=
      mapM_of_forall₂ (same.imp fun _ _ => convField_mono (ih (by omega)))
    rw [convTable, converted']
    rfl

/-- The keys are integers and strings, and the values of types that can be shared. -/
def Shareable (t : Table) : Prop :=
  ∀ field ∈ t.entries, (sharedKey field.1).isSome = true ∧
    match field.2 with
    | .lightuserdata _ | .object _ _ => False
    | _ => True

theorem exists_convField {field : Value × Value} (key : (sharedKey field.1).isSome = true)
    {c : Content} (value : convValue conv field.2 = .ok c) :
    ∃ shared, convField conv field = .ok shared := by
  obtain ⟨k, v⟩ := field
  cases k with
  | integer x => exact ⟨(.integer x, c), by rw [convField, value]; rfl⟩
  | string s => exact ⟨(.string s, c), by rw [convField, value]; rfl⟩
  | nil | boolean | number | lightuserdata | table | object => cases key

/-- Enough levels for each field are enough for all. -/
theorem exists_convFields {entries : List (Value × Value)}
    (each : ∀ field ∈ entries, ∃ levels shared, convField (convTable h levels) field = .ok shared) :
    ∃ levels fields, entries.mapM (convField (convTable h levels)) = .ok fields := by
  induction entries with
  | nil => exact ⟨0, [], rfl⟩
  | cons field entries ih =>
    obtain ⟨levels, shared, first⟩ := each field List.mem_cons_self
    obtain ⟨levels', fields, others⟩ := ih fun field mem => each field (List.mem_cons_of_mem _ mem)
    refine ⟨max levels levels', shared :: fields, mapM_of_forall₂ (.cons ?_ ?_)⟩
    · exact convField_mono (convTable_mono (by omega)) first
    · exact (forall₂_of_mapM others).imp fun _ _ => convField_mono (convTable_mono (by omega))

open LuaSeri (sparseHeap emptyTable)

/-- The shared table of `{[1] = true, [3] = {}, x = 7}`. -/
def sharedSparse : SharedTable Content :=
  build 3 [(.integer 1, .boolean true), (.string [120], .integer 7),
    (.integer 3, .table (build 0 []))]

theorem sparse_reached {ref' : Nat} (reached : Reached sparseHeap [.table 0] (.table ref')) :
    ref' = 0 ∨ ref' = 1 := by
  have known : .table ref' ∈ [Value.table 0, .integer 1, .boolean true, .string [120], .integer 7,
      .integer 3, .table 1] := by
    refine reached.mem _ (by decide) fun ref mem => ?_
    obtain rfl | rfl : ref = 0 ∨ ref = 1 := by simpa using mem
    · decide
    · decide
  simpa using known

theorem sparse_iterable {ref' : Nat} (reached : Reached sparseHeap [.table 0] (.table ref')) :
    Iterable (sparseHeap ref') := by
  obtain rfl | rfl := sparse_reached reached
  · exact ⟨by decide, linksFit_of_length_le (by decide)⟩
  · exact ⟨by decide, linksFit_of_length_le (by decide)⟩

theorem shared_iteration_sparse : EnumeratesAll sparseHeap 0 ∧
    ∃ fuel entries, pushTable fuel sharedSparse = some entries ∧
      DeepEq sparseHeap (.table 0) (.table entries) := by
  have built : convTable sparseHeap 2 0 = .ok sharedSparse := rfl
  exact (shared_iteration built).mpr fun _ => sparse_iterable

/-- `{[0] = true}`. -/
def zeroTable : Table where
  entries := [(.integer 0, .boolean true)]
  rawlen := 0
  distinct := List.nodup_singleton _
  keys := by simp [Value.isKey]
  values := by simp
  fits := Nat.two_pow_pos 63
  present := Or.inl rfl
  absent := fun _ => rfl

theorem not_shared_iteration_zero : ¬∀ (h : Heap) (levels ref : Nat) (t : SharedTable Content),
    convTable h levels ref = .ok t → EnumeratesAll h ref ∧
      ∃ fuel entries, pushTable fuel t = some entries ∧ DeepEq h (.table ref) (.table entries) := by
  intro claim
  have built : convTable (fun _ => zeroTable) 1 0 = .ok (build 0 [(.integer 0, .boolean true)]) := rfl
  have all := (claim _ _ _ _ built).1
  exact ((enumeratesAll_iff built).mp all 0 (.root List.mem_cons_self)).1 (by decide)

end Starnet.Sharedata
