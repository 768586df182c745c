import Starnet.Seri.RoundTrip

/-! Tables with a `__pairs` metamethod. `wb_table` packs the pairs that the metamethod enumerates,
and decoding them assigns them to a new table one after another: `Unserialize` after `Serialize` is
the copy that a script would make with `for k, v in pairs(x) do t[k] = v end`. -/

namespace Starnet.LuaSeri.Metapairs

open LuaSeri (Value Tree Table)

/-! ### Encoding -/

/-- What a table gives when `wb_table_metapairs` calls `__pairs` and its iterator: the pairs up to a
nil key, or up to a call that raises an error. -/
structure Enumeration where
  pairs : List (Value × Value)
  error : Option String
  keys : ∀ entry ∈ pairs, entry.1 ≠ .nil

/-- A table without and with a `__pairs` metamethod. Every enumeration of a table is the same. -/
inductive Object
  | plain (t : Table)
  | pairs (e : Enumeration)

/-- The tables by their references. -/
abbrev Objects := Nat → Object

/-- The key and the value of a pair. -/
def packPair (pack : Value → Except String (List UInt8)) (entry : Value × Value) :
    Except String (List UInt8) := do
  let key ← pack entry.1
  let value ← pack entry.2
  return key ++ value

/-- `wb_table_metapairs`. -/
def wbTableMetapairs (pack : Value → Except String (List UInt8)) (e : Enumeration) :
    Except String (List UInt8) := do
  let pairs ← e.pairs.mapM (packPair pack)
  match e.error with
  | some msg => throw msg
  | none => return [combineType typeTable 0] ++ pairs.flatten ++ wbNil

/-- `wb_table`. -/
def wbTable (pack : Value → Except String (List UInt8)) : Object → Except String (List UInt8)
  | .plain t => LuaSeri.wbTable pack t
  | .pairs e => wbTableMetapairs pack e

/-- `pack_one`, where `levels` is `MAX_DEPTH + 1 - depth`. -/
def packOne (h : Objects) : (levels : Nat) → Value → Except String (List UInt8)
  | 0, _ => .error "serialize can't pack too depth table"
  | levels + 1, v =>
    match v with
    | .nil => .ok wbNil
    | .integer x => .ok (wbInteger x)
    | .number bits => .ok (wbReal bits)
    | .boolean b => .ok (wbBoolean b)
    | .string s => .ok (wbString s (Int32.ofNat s.length))
    | .lightuserdata p => .ok (wbPointer p)
    | .table ref => wbTable (packOne h levels) (h ref)
    | .object type _ => .error s!"Unsupport type {type.typename} to serialize"

/-- `LuaSeri::Serialize` on the arguments `vs`. -/
def serialize (h : Objects) (vs : List Value) : Except String (List UInt8) :=
  return (← vs.mapM (packOne h (maxDepth + 1))).flatten

/-- Without metamethods this is the encoder of plain tables. -/
theorem packOne_plain (h : Heap) (levels : Nat) :
    packOne (fun ref => .plain (h ref)) levels = LuaSeri.packOne h levels := by
  induction levels with
  | zero => rfl
  | succ levels ih =>
    funext v
    cases v with
    | table ref =>
      change LuaSeri.wbTable (packOne _ levels) (h ref) = LuaSeri.wbTable _ (h ref)
      rw [ih]
    | _ => rfl

theorem serialize_plain (h : Heap) (vs : List Value) :
    serialize (fun ref => .plain (h ref)) vs = LuaSeri.serialize h vs := by
  rw [serialize, packOne_plain, LuaSeri.serialize]

/-! ### Copies -/

/-- The elements of an array part from index `i` on, with their indices. -/
def indexed : Nat → List Value → List (Value × Value)
  | _, [] => []
  | i, v :: vs => (.integer (Int64.ofNat i), v) :: indexed (i + 1) vs

/-- The assignments that make a copy of a table, in order. -/
def Object.assignments : Object → List (Value × Value)
  | plain t => indexed 1 (arrayValues t) ++ hashFields t
  | pairs e => e.pairs

/-- `t[k] = v` with copies of `k` and `v`. -/
def assign (copy : Value → Except String Tree) (entries : List (Tree × Tree))
    (entry : Value × Value) : Except String (List (Tree × Tree)) := do
  let key ← copy entry.1
  let value ← copy entry.2
  Tree.rawset entries key value

def copyTable (copy : Value → Except String Tree) (o : Object) : Except String Tree := do
  let entries ← o.assignments.foldlM (assign copy) []
  return .table entries

def copyValue (table : Nat → Except String Tree) : Value → Except String Tree
  | .nil => .ok .nil
  | .boolean b => .ok (.boolean b)
  | .integer x => .ok (.integer x)
  | .number bits => .ok (.number bits)
  | .string s => .ok (.string s)
  | .lightuserdata p => .ok (.lightuserdata p)
  | .table ref => table ref
  | .object type _ => .error s!"Unsupport type {type.typename} to serialize"

/-- The copy of a value whose tables nest at most `levels` deep. -/
def copy (h : Objects) : (levels : Nat) → Value → Except String Tree
  | 0 => copyValue fun _ => .error "serialize can't pack too depth table"
  | levels + 1 => copyValue fun ref => copyTable (copy h levels) (h ref)

theorem copy_integer (h : Objects) (levels : Nat) (x : Int64) :
    copy h levels (.integer x) = .ok (.integer x) := by
  cases levels <;> rfl

theorem copyTable_isNil {copy : Value → Except String Tree} {o : Object} {t : Tree}
    (eq : copyTable copy o = .ok t) : t.isNil = false := by
  obtain ⟨entries, -, eq⟩ := bind_eq_ok eq
  cases eq
  rfl

/-- Only nil has nil as its copy. -/
theorem copy_isNil {h : Objects} {levels : Nat} {v : Value} {t : Tree}
    (eq : copy h levels v = .ok t) (ne : v ≠ .nil) : t.isNil = false := by
  cases v with
  | nil => exact absurd rfl ne
  | table ref =>
    cases levels with
    | zero => cases eq
    | succ levels => exact copyTable_isNil eq
  | _ => cases levels <;> cases eq <;> rfl

/-! ### Fields of a copy -/

/-- The key that `lua_rawset` stores a field under: a float with an integer value is that integer. -/
def normal : Tree → Tree
  | .number bits => match toInteger bits with
    | some x => .integer x
    | none => .number bits
  | t => t

/-- `lua_rawget` on the fields of a decoded table. -/
def get (entries : List (Tree × Tree)) (key : Tree) : Tree :=
  ((entries.find? fun entry => entry.1.rawequal key).map Prod.snd).getD .nil

theorem rawequal_iff {t u : Tree} : t.rawequal u = true ↔ t = u ∧ t.rawequal t = true := by
  cases t <;> cases u <;> simp [Tree.rawequal]

theorem rawset_eq_assign {entries entries' : List (Tree × Tree)} {key value : Tree}
    (eq : Tree.rawset entries key value = .ok entries') :
    entries' = Tree.assign entries (normal key) value := by
  cases key with
  | nil => cases eq
  | number bits =>
    simp only [Tree.rawset, normal] at eq ⊢
    cases integral : toInteger bits with
    | some x =>
      rw [integral] at eq
      exact (Except.ok.inj eq).symm
    | none =>
      simp only [integral] at eq
      split at eq
      · cases eq
      · exact (Except.ok.inj eq).symm
  | _ => exact (Except.ok.inj eq).symm

theorem find?_others {entries : List (Tree × Tree)} {key other : Tree}
    (ne : key.rawequal other = false) :
    (entries.filter fun entry => !entry.1.rawequal key).find?
        (fun entry => entry.1.rawequal other) =
      entries.find? fun entry => entry.1.rawequal other := by
  have both : (fun entry : Tree × Tree => !entry.1.rawequal key && entry.1.rawequal other) =
      fun entry => entry.1.rawequal other := by
    funext entry
    cases stored : entry.1.rawequal other with
    | false => exact Bool.and_false _
    | true =>
      obtain ⟨eq, -⟩ := rawequal_iff.mp stored
      have apart : other.rawequal key = false := by
        by_contra same
        obtain ⟨eq, self⟩ := rawequal_iff.mp (Bool.not_eq_false _ ▸ same)
        rw [← eq, self] at ne
        cases ne
      rw [eq, apart]
      rfl
  rw [List.find?_filter]
  simpa using congrArg (fun p => entries.find? p) both

theorem find?_assigned {entries : List (Tree × Tree)} {key other : Tree}
    (same : key.rawequal other = true) :
    (entries.filter fun entry => !entry.1.rawequal key).find?
        (fun entry => entry.1.rawequal other) = none := by
  refine List.find?_eq_none.mpr fun entry mem stored => ?_
  have kept := (List.mem_filter.mp mem).2
  rw [(rawequal_iff.mp same).1, stored] at kept
  cases kept

theorem get_assign (entries : List (Tree × Tree)) (key value other : Tree) :
    get (Tree.assign entries key value) other =
      if key.rawequal other then value else get entries other := by
  simp only [get, Tree.assign]
  cases same : key.rawequal other with
  | false =>
    simp only [Bool.false_eq_true, if_false]
    split
    · rw [find?_others same]
    · rw [List.find?_append, find?_others same]
      simp [same]
  | true =>
    simp only [if_true]
    split
    · rename_i nil
      rw [find?_assigned same]
      cases value <;> first | rfl | cases nil
    · rw [List.find?_append, find?_assigned same]
      simp [same]

/-- The value that a pair gives to a key. -/
def given (copy : Value → Except String Tree) (key : Tree) (entry : Value × Value) : Option Tree :=
  match copy entry.1, copy entry.2 with
  | .ok k, .ok v => if (normal k).rawequal key then some v else none
  | _, _ => none

theorem get_assigned {copy : Value → Except String Tree} {entry : Value × Value}
    {entries entries' : List (Tree × Tree)} (eq : assign copy entries entry = .ok entries')
    (key : Tree) : get entries' key = (given copy key entry).getD (get entries key) := by
  obtain ⟨k, first, eq⟩ := bind_eq_ok eq
  obtain ⟨v, second, eq⟩ := bind_eq_ok eq
  rw [rawset_eq_assign eq, get_assign, given, first, second]
  cases same : (normal k).rawequal key <;> simp [same]

/-- A field of a copy has the value of the last pair for its key, which may be nil. -/
theorem get_copied {copy : Value → Except String Tree} (key : Tree) :
    ∀ {pairs : List (Value × Value)} {entries entries' : List (Tree × Tree)},
    pairs.foldlM (assign copy) entries = .ok entries' →
    get entries' key = (pairs.reverse.findSome? (given copy key)).getD (get entries key)
  | [], _, _, eq => by
    cases eq
    rfl
  | entry :: pairs, entries, entries', eq => by
    rw [List.foldlM_cons] at eq
    obtain ⟨entries₁, first, eq⟩ := bind_eq_ok eq
    rw [get_copied key eq, get_assigned first, List.reverse_cons, List.findSome?_append]
    cases pairs.reverse.findSome? (given copy key) with
    | some v => rfl
    | none =>
      rw [Option.none_or, List.findSome?_cons]
      cases given copy key entry <;> rfl

/-! ### Reading with a result or an error -/

section Yields

variable {α β : Type} {p : ReadBlock → Except Failure (α × ReadBlock)} {xs ys bytes : List UInt8}
  {r : Except String α}

/-- The reader `p` reads `bytes` and ends with the result or the error `r`. -/
structure Yields (p : ReadBlock → Except Failure (α × ReadBlock)) (bytes : List UInt8)
    (r : Except String α) : Prop where
  ok : ∀ a, r = .ok a → Reads p bytes a
  error : ∀ msg, r = .error msg → ∀ rb rest, rb.Holds (bytes ++ rest) → p rb = .error (.raised msg)

namespace Yields

theorem of_reads {a : α} (reads : Reads p bytes a) : Yields p bytes (.ok a) :=
  ⟨fun _ eq => Except.ok.inj eq ▸ reads, nofun⟩

theorem bind {q : α → ReadBlock → Except Failure (β × ReadBlock)} {f : α → Except String β}
    (first : Yields p xs r) (second : ∀ a, r = .ok a → Yields (q a) ys (f a)) :
    Yields (fun rb => p rb >>= fun x => q x.1 x.2) (xs ++ ys) (r >>= f) := by
  cases r with
  | ok a =>
    have second := second a rfl
    refine ⟨fun b eq => (first.ok a rfl).bind (second.ok b eq), fun msg eq rb rest holds => ?_⟩
    rw [List.append_assoc] at holds
    obtain ⟨rb', read, holds⟩ := first.ok a rfl rb _ holds
    rw [read]
    exact second.error msg eq rb' rest holds
  | error msg =>
    refine ⟨nofun, fun msg' eq rb rest holds => ?_⟩
    cases eq
    rw [List.append_assoc] at holds
    rw [first.error msg rfl rb _ holds]
    rfl

theorem map (first : Yields p xs r) (f : α → β) :
    Yields (fun rb => p rb >>= fun x => .ok (f x.1, x.2)) xs (r >>= fun a => .ok (f a)) := by
  rw [← List.append_nil xs]
  exact first.bind (q := fun a rb => .ok (f a, rb)) fun a _ => of_reads (.pure (f a))

end Yields

end Yields

/-! ### Reading a table -/

section Tables

variable {h : Objects} {levels fuel : Nat}

/-- The bytes of a pair, its key before its value. -/
def YieldsPair (h : Objects) (levels fuel : Nat) (entry : Value × Value) (bytes : List UInt8) :
    Prop :=
  ∃ key value, bytes = key ++ value ∧ key ≠ [] ∧
    Yields (fun rb => unpackOne fuel rb) key (copy h levels entry.1) ∧
    Yields (fun rb => unpackOne fuel rb) value (copy h levels entry.2)

theorem unpackArray_yields : ∀ {vs : List Value} {blocks : List (List UInt8)} {i : Nat}
    {entries : List (Tree × Tree)},
    List.Forall₂ (fun v block => Yields (fun rb => unpackOne fuel rb) block (copy h levels v))
      vs blocks →
    Yields (fun rb => unpackArray (fun rb => unpackOne fuel rb) vs.length i entries rb)
      blocks.flatten ((indexed i vs).foldlM (assign (copy h levels)) entries)
  | [], _, _, entries, .nil => .of_reads (.pure entries)
  | v :: vs, block :: blocks, i, entries, .cons first others => by
    have step : ∀ entries, assign (copy h levels) entries (.integer (Int64.ofNat i), v) =
        copy h levels v >>= fun u => .ok (Tree.assign entries (.integer (Int64.ofNat i)) u) := by
      intro entries
      rw [assign, copy_integer]
      rfl
    rw [indexed, List.foldlM_cons, step, bind_assoc]
    exact first.bind (q := fun u rb => unpackArray (fun rb => unpackOne fuel rb) vs.length (i + 1)
      (Tree.assign entries (.integer (Int64.ofNat i)) u) rb)
      fun u _ => unpackArray_yields others

/-- One round of the loop over the pairs fails as the assignment does, or goes on with its result. -/
theorem unpackHash_round {entry : Value × Value} {bytes rest : List UInt8} {rounds : Nat}
    {entries : List (Tree × Tree)} {rb : ReadBlock} (pair : YieldsPair h levels fuel entry bytes)
    (ne : entry.1 ≠ .nil) (holds : rb.Holds (bytes ++ rest)) :
    (∃ msg, assign (copy h levels) entries entry = .error msg ∧
      unpackHash (fun rb => unpackOne fuel rb) (rounds + 1) entries rb = .error (.raised msg)) ∨
    ∃ entries' rb', assign (copy h levels) entries entry = .ok entries' ∧ rb'.Holds rest ∧
      unpackHash (fun rb => unpackOne fuel rb) (rounds + 1) entries rb =
        unpackHash (fun rb => unpackOne fuel rb) rounds entries' rb' := by
  obtain ⟨key, value, rfl, -, readsKey, readsValue⟩ := pair
  rw [List.append_assoc] at holds
  cases first : copy h levels entry.1 with
  | error msg =>
    have failed := readsKey.error msg first rb _ holds
    exact .inl ⟨msg, by simp [assign, first, bind, Except.bind],
      by simp [unpackHash, failed, bind, Except.bind]⟩
  | ok t =>
    obtain ⟨rb₁, eq₁, holds₁⟩ := readsKey.ok t first rb _ holds
    have keyed := copy_isNil first ne
    cases second : copy h levels entry.2 with
    | error msg =>
      have failed := readsValue.error msg second rb₁ _ holds₁
      exact .inl ⟨msg, by simp [assign, first, second, bind, Except.bind],
        by simp [unpackHash, eq₁, keyed, failed, bind, Except.bind]⟩
    | ok u =>
      obtain ⟨rb₂, eq₂, holds₂⟩ := readsValue.ok u second rb₁ _ holds₁
      cases set : Tree.rawset entries t u with
      | error msg =>
        exact .inl ⟨msg, by simp [assign, first, second, set, bind, Except.bind],
          by simp [unpackHash, eq₁, keyed, eq₂, set, bind, Except.bind, throw, throwThe,
            MonadExceptOf.throw]⟩
      | ok entries' =>
        exact .inr ⟨entries', rb₂, by simp [assign, first, second, set, bind, Except.bind],
          holds₂, unpackHash_field eq₁ keyed eq₂ set⟩

theorem unpackHash_pair {entry : Value × Value} {bytes rest : List UInt8} {rounds : Nat}
    {entries : List (Tree × Tree)} {r : List (Tree × Tree) → Except String (List (Tree × Tree))}
    (pair : YieldsPair h levels fuel entry bytes) (ne : entry.1 ≠ .nil)
    (others : ∀ entries, Yields (fun rb => unpackHash (fun rb => unpackOne fuel rb) rounds entries rb)
      rest (r entries)) :
    Yields (fun rb => unpackHash (fun rb => unpackOne fuel rb) (rounds + 1) entries rb)
      (bytes ++ rest) (assign (copy h levels) entries entry >>= r) := by
  refine ⟨fun final eq rb later holds => ?_, fun msg eq rb later holds => ?_⟩
  · rw [List.append_assoc] at holds
    rcases unpackHash_round pair ne holds with ⟨msg, failed, -⟩ | ⟨entries', rb', set, holds', same⟩
    · rw [failed] at eq
      cases eq
    · rw [set] at eq
      rw [same]
      exact (others entries').ok final eq rb' later holds'
  · rw [List.append_assoc] at holds
    rcases unpackHash_round pair ne holds with
      ⟨msg', failed, raised⟩ | ⟨entries', rb', set, holds', same⟩
    · rw [failed] at eq
      cases eq
      exact raised
    · rw [set] at eq
      simp only [same]
      exact (others entries').error msg eq rb' later holds'

theorem unpackHash_yields (positive : 0 < fuel) : ∀ {more : List (Value × Value)}
    {blocks : List (List UInt8)} {rounds : Nat} {entries : List (Tree × Tree)},
    List.Forall₂ (YieldsPair h levels fuel) more blocks → (∀ entry ∈ more, entry.1 ≠ .nil) →
    more.length < rounds →
    Yields (fun rb => unpackHash (fun rb => unpackOne fuel rb) rounds entries rb)
      (blocks.flatten ++ wbNil) (more.foldlM (assign (copy h levels)) entries)
  | [], _, rounds + 1, entries, .nil, _, _ => by
    obtain ⟨fuel, rfl⟩ := Nat.exists_eq_succ_of_ne_zero positive.ne'
    refine .of_reads fun rb rest holds => ?_
    obtain ⟨rb', eq, holds'⟩ := (pushes_wbNil fuel).unpackOne rb rest holds
    refine ⟨rb', ?_, holds'⟩
    simp only [unpackHash, eq]
    rfl
  | entry :: more, block :: blocks, rounds + 1, entries, .cons first others, keys, lt => by
    rw [List.flatten_cons, List.append_assoc, List.foldlM_cons]
    exact unpackHash_pair first (keys entry List.mem_cons_self) fun entries =>
      unpackHash_yields positive others (fun entry mem => keys entry (List.mem_cons_of_mem _ mem))
        (Nat.lt_of_succ_lt_succ lt)

/-- `bytes` is a type byte and what `push_value` reads for it, up to the result or the error `r`. -/
def YieldsValue (fuel : Nat) (bytes : List UInt8) (r : Except String Tree) : Prop :=
  ∃ byte payload, bytes = byte :: payload ∧
    Yields (fun rb => pushValue (fun rb => unpackOne fuel rb) fuel rb (typeOf byte) (cookieOf byte))
      payload r

theorem YieldsValue.of_pushes {bytes : List UInt8} {t : Tree} (pushes : Pushes fuel bytes t) :
    YieldsValue fuel bytes (.ok t) := by
  obtain ⟨byte, payload, eq, reads⟩ := pushes
  exact ⟨byte, payload, eq, .of_reads reads⟩

theorem YieldsValue.ne_nil {bytes : List UInt8} {r : Except String Tree}
    (yields : YieldsValue fuel bytes r) : bytes ≠ [] := by
  obtain ⟨byte, payload, rfl, -⟩ := yields
  exact List.cons_ne_nil _ _

theorem YieldsValue.unpackOne {bytes : List UInt8} {r : Except String Tree}
    (yields : YieldsValue fuel bytes r) :
    Yields (fun rb => LuaSeri.unpackOne (fuel + 1) rb) bytes r := by
  obtain ⟨byte, payload, rfl, yields⟩ := yields
  refine (Yields.of_reads (.readByte byte 443)).bind (q := fun byte rb =>
    pushValue (fun rb => LuaSeri.unpackOne fuel rb) fuel rb (typeOf byte) (cookieOf byte))
    (f := fun _ => r) fun _ eq => ?_
  cases eq
  exact yields

theorem YieldsPair.ne_nil {entry : Value × Value} {bytes : List UInt8}
    (pair : YieldsPair h levels fuel entry bytes) : bytes ≠ [] := by
  obtain ⟨key, value, rfl, ne, -⟩ := pair
  exact fun eq => ne (List.append_eq_nil_iff.mp eq).1

/-- The bytes of a table, when those of its array part and its pairs are decoded. -/
theorem yields_table {size : Int32} {vs : List Value} {pairs : List (Value × Value)}
    {array hash : List (List UInt8)} (fits : SizeFits size)
    (count : vs.length = size.toNatClampNeg)
    (arrays : List.Forall₂ (fun v block =>
      Yields (fun rb => unpackOne fuel rb) block (copy h levels v)) vs array)
    (hashes : List.Forall₂ (YieldsPair h levels fuel) pairs hash)
    (keys : ∀ entry ∈ pairs, entry.1 ≠ .nil) (short : hash.flatten.length < fuel) :
    YieldsValue fuel (wbTableHeader size ++ array.flatten ++ hash.flatten ++ wbNil)
      ((indexed 1 vs ++ pairs).foldlM (assign (copy h levels)) [] >>=
        fun entries => .ok (.table entries)) := by
  obtain ⟨byte, payload, size', header, type, same, readsSize⟩ := getArraySize_wbTableHeader fits
  have length := length_le_flatten (fun _ _ => YieldsPair.ne_nil) hashes
  have readsArray : Yields
      (fun rb => unpackArray (fun rb => unpackOne fuel rb) vs.length 1 [] rb) array.flatten _ :=
    unpackArray_yields arrays
  rw [count, ← same] at readsArray
  have fields := readsArray.bind (q := fun entries rb =>
    unpackHash (fun rb => unpackOne fuel rb) fuel entries rb >>= fun r => .ok (Tree.table r.1, r.2))
    fun entries _ => (unpackHash_yields (by omega) hashes keys (by omega)).map Tree.table
  rw [header, List.foldlM_append, bind_assoc]
  refine ⟨byte, payload ++ (array.flatten ++ (hash.flatten ++ wbNil)), by simp, ?_⟩
  rw [type]
  refine (Yields.of_reads readsSize).bind (q := fun size rb =>
    unpackArray (fun rb => unpackOne fuel rb) size.toNatClampNeg 1 [] rb >>= fun r =>
    unpackHash (fun rb => unpackOne fuel rb) fuel r.1 r.2 >>= fun r => .ok (Tree.table r.1, r.2))
    (f := fun _ => _) fun _ eq => ?_
  cases eq
  exact fields

end Tables

/-! ### Round trip -/

section RoundTrip

variable {h : Objects}

def Object.entries : Object → List (Value × Value)
  | plain t => t.entries
  | pairs e => e.pairs

/-- `v` is one of the values `vs`, or a key or a value of a table that is. -/
inductive Reached (h : Objects) (vs : List Value) : Value → Prop
  | root {v : Value} (mem : v ∈ vs) : Reached h vs v
  | key {ref : Nat} {k v : Value} (table : Reached h vs (.table ref))
      (mem : (k, v) ∈ (h ref).entries) : Reached h vs k
  | value {ref : Nat} {k v : Value} (table : Reached h vs (.table ref))
      (mem : (k, v) ∈ (h ref).entries) : Reached h vs v

/-- The lengths of a value survive as an `int`. -/
def IntSized (h : Objects) : Value → Prop
  | .string s => s.length < 2 ^ 31
  | .table ref => ∀ t, h ref = .plain t → SizeFits (arraySize t)
  | _ => True

theorem Reached.trans {vs : List Value} {v w : Value} (inner : Reached h [v] w)
    (outer : Reached h vs v) : Reached h vs w := by
  induction inner with
  | root mem => exact List.mem_singleton.mp mem ▸ outer
  | key _ mem ih => exact .key ih mem
  | value _ mem ih => exact .value ih mem

theorem Reached.eq_nil {v : Value} (reached : Reached h [.nil] v) : v = .nil := by
  induction reached with
  | root mem => exact List.mem_singleton.mp mem
  | key _ _ ih => cases ih
  | value _ _ ih => cases ih

theorem packPair_cases {pack : Value → Except String (List UInt8)} {entry : Value × Value}
    {bytes : List UInt8} (eq : packPair pack entry = .ok bytes) : ∃ key value,
    bytes = key ++ value ∧ pack entry.1 = .ok key ∧ pack entry.2 = .ok value := by
  obtain ⟨key, first, eq⟩ := bind_eq_ok eq
  obtain ⟨value, second, eq⟩ := bind_eq_ok eq
  cases eq
  exact ⟨key, value, rfl, first, second⟩

/-- What `wb_table` writes: a header, an array part and pairs. -/
theorem wbTable_parts {pack : Value → Except String (List UInt8)} {o : Object} {bytes : List UInt8}
    (eq : wbTable pack o = .ok bytes) (fits : ∀ t, o = .plain t → SizeFits (arraySize t)) :
    ∃ (size : Int32) (vs : List Value) (pairs : List (Value × Value))
      (array hash : List (List UInt8)), SizeFits size ∧ vs.length = size.toNatClampNeg ∧
      o.assignments = indexed 1 vs ++ pairs ∧
      (∀ v ∈ vs, v = .nil ∨ ∃ k, (k, v) ∈ o.entries) ∧ (∀ entry ∈ pairs, entry ∈ o.entries) ∧
      (∀ entry ∈ pairs, entry.1 ≠ .nil) ∧
      List.Forall₂ (fun v block => pack v = .ok block) vs array ∧
      List.Forall₂ (fun entry block => packPair pack entry = .ok block) pairs hash ∧
      bytes = wbTableHeader size ++ array.flatten ++ hash.flatten ++ wbNil := by
  cases o with
  | plain t =>
    obtain ⟨array, packed, eq⟩ := bind_eq_ok eq
    obtain ⟨hash, packed', eq⟩ := bind_eq_ok eq
    cases eq
    refine ⟨arraySize t, arrayValues t, hashFields t, array, hash, fits t rfl, ?_, rfl,
      fun v mem => ?_, fun entry mem => List.mem_of_mem_filter mem, fun entry mem none => ?_,
      forall₂_of_mapM packed, forall₂_of_mapM packed', rfl⟩
    · rw [arrayValues, List.length_map, List.length_range]
    · obtain ⟨i, -, get⟩ := List.mem_map.mp mem
      by_cases ne : v = .nil
      · exact .inl ne
      · exact .inr ⟨_, (rawget_eq_iff t.distinct ne).mp get⟩
    · have key := t.keys entry (List.mem_of_mem_filter mem)
      rw [none] at key
      cases key
  | pairs e =>
    obtain ⟨hash, packed, eq⟩ := bind_eq_ok eq
    cases error : e.error with
    | some msg =>
      rw [error] at eq
      cases eq
    | none =>
      rw [error] at eq
      cases eq
      exact ⟨0, [], e.pairs, [], hash, .inl (by decide), rfl, rfl, by simp, fun _ => id, e.keys, .nil,
        forall₂_of_mapM packed, rfl⟩

/-- What `wb_table` writes is decoded to the copy of the table, when what `pack_one` writes for each of
its keys and values is decoded to the copy of that. -/
theorem wbTable_yields {levels fuel : Nat} {ref : Nat} {bytes : List UInt8}
    (eq : wbTable (packOne h levels) (h ref) = .ok bytes)
    (sized : ∀ w, Reached h [.table ref] w → IntSized h w) (short : bytes.length ≤ fuel + 1)
    (inner : ∀ {v : Value} {block : List UInt8}, packOne h levels v = .ok block →
      (∀ w, Reached h [v] w → IntSized h w) → block.length ≤ fuel →
      block ≠ [] ∧ Yields (fun rb => unpackOne fuel rb) block (copy h levels v)) :
    YieldsValue fuel bytes (copyTable (copy h levels) (h ref)) := by
  have root : Reached h [.table ref] (.table ref) := .root (List.mem_singleton.mpr rfl)
  obtain ⟨size, vs, pairs, array, hash, fits, count, assignments, values, members, keys, packed,
    packed', rfl⟩ := wbTable_parts eq (sized _ root)
  have nil : wbNil.length = 1 := rfl
  have header : 1 ≤ (wbTableHeader size).length := by
    unfold wbTableHeader
    split <;> simp
  simp only [List.length_append, nil] at short
  have arrays : List.Forall₂ (fun v block =>
      Yields (fun rb => unpackOne fuel rb) block (copy h levels v)) vs array := by
    refine forall₂_mem packed (n := fuel) (by omega) fun v mem block packed short => ?_
    refine (inner packed (fun w reached => ?_) short).2
    rcases values v mem with rfl | ⟨k, field⟩
    · rw [reached.eq_nil]
      trivial
    · exact sized w (reached.trans (.value root field))
  have hashes : List.Forall₂ (YieldsPair h levels fuel) pairs hash := by
    refine forall₂_mem packed' (n := fuel) (by omega) fun entry mem block packed short => ?_
    obtain ⟨key, value, rfl, first, second⟩ := packPair_cases packed
    rw [List.length_append] at short
    have member := members entry mem
    obtain ⟨ne, readsKey⟩ := inner first
      (fun w reached => sized w (reached.trans (.key root member))) (by omega)
    obtain ⟨-, readsValue⟩ := inner second
      (fun w reached => sized w (reached.trans (.value root member))) (by omega)
    exact ⟨key, value, rfl, ne, readsKey, readsValue⟩
  have table := yields_table fits count arrays hashes keys (by omega)
  rw [← assignments] at table
  exact table

/-- What `pack_one` writes for a value is decoded to the copy of the value. -/
theorem packOne_yields : ∀ {levels : Nat} {v : Value} {bytes : List UInt8} {fuel : Nat},
    packOne h levels v = .ok bytes → (∀ w, Reached h [v] w → IntSized h w) →
    bytes.length ≤ fuel + 1 → YieldsValue fuel bytes (copy h levels v)
  | 0, _, _, _, eq, _, _ => by cases eq
  | levels + 1, v, bytes, fuel, eq, sized, short => by
    cases v with
    | nil =>
      cases eq
      exact .of_pushes (pushes_wbNil fuel)
    | boolean b =>
      cases eq
      exact .of_pushes (pushes_wbBoolean fuel b)
    | integer x =>
      cases eq
      exact .of_pushes (pushes_wbInteger fuel x)
    | number bits =>
      cases eq
      exact .of_pushes (pushes_wbReal fuel bits)
    | string s =>
      cases eq
      exact .of_pushes (pushes_wbString fuel s (sized _ (.root (List.mem_singleton.mpr rfl))))
    | lightuserdata p =>
      cases eq
      exact .of_pushes (pushes_wbPointer fuel p)
    | object type ref => cases eq
    | table ref =>
      refine wbTable_yields eq sized short fun {_ block} packed sized short => ?_
      have yields := packOne_yields packed sized (show block.length ≤ fuel - 1 + 1 by omega)
      have ne := yields.ne_nil
      have reads := yields.unpackOne
      rw [Nat.sub_add_cancel ((List.length_pos_of_ne_nil ne).trans_le short)] at reads
      exact ⟨ne, reads⟩

/-- The loop of `unpack_buffer` decodes the values up to the first error. -/
theorem unpackAll_copies {levels fuel : Nat} : ∀ {vs : List Value} {blocks : List (List UInt8)}
    {rounds : Nat} {rb : ReadBlock},
    List.Forall₂ (fun v block => YieldsValue fuel block (copy h levels v)) vs blocks →
    rb.Holds blocks.flatten → vs.length < rounds →
    unpackAll fuel rounds rb = (vs.mapM (copy h levels)).mapError .raised
  | [], _, rounds + 1, rb, .nil, holds, _ => by
    have none : rb.read 1 = none := if_pos (by rw [holds.len]; decide)
    rw [unpackAll, none]
    rfl
  | v :: vs, _ :: blocks, rounds + 1, rb, .cons ⟨byte, payload, rfl, yields⟩ others, holds, lt => by
    have holds : rb.Holds ([byte] ++ (payload ++ blocks.flatten)) := holds
    obtain ⟨rb₁, eq₁, holds₁⟩ := holds.read
    change rb.read 1 = _ at eq₁
    rw [unpackAll, eq₁, List.mapM_cons]
    change (pushValue (unpackOne fuel) fuel rb₁ (typeOf byte) (cookieOf byte) >>= _) = _
    cases copied : copy h levels v with
    | error msg =>
      have failed := yields.error msg copied rb₁ _ holds₁
      change pushValue (unpackOne fuel) fuel rb₁ (typeOf byte) (cookieOf byte) = _ at failed
      rw [failed]
      rfl
    | ok tree =>
      obtain ⟨rb₂, eq₂, holds₂⟩ := yields.ok tree copied rb₁ _ holds₁
      change pushValue (unpackOne fuel) fuel rb₁ (typeOf byte) (cookieOf byte) = _ at eq₂
      rw [eq₂]
      change (unpackAll fuel rounds rb₂ >>= _) = _
      rw [unpackAll_copies others holds₂ (Nat.lt_of_succ_lt_succ lt)]
      cases vs.mapM (copy h levels) <;> rfl

/-- A metamethod that gives the key 1 as a float, and another key twice. -/
def repeatedPairs : Enumeration where
  pairs := [(.string [97], .integer 1), (.number 0x3FF0000000000000, .boolean true),
    (.string [97], .nil)]
  error := none
  keys := by simp

def repeatedObjects (_ref : Nat) : Object := .pairs repeatedPairs

theorem repeated_intSized {v : Value} (reached : Reached repeatedObjects [.table 0] v) :
    IntSized repeatedObjects v := by
  have field : ∀ k v, (k, v) ∈ repeatedPairs.pairs →
      IntSized repeatedObjects k ∧ IntSized repeatedObjects v := by
    intro k v mem
    simp only [repeatedPairs, List.mem_cons, Prod.mk.injEq, List.not_mem_nil, or_false] at mem
    rcases mem with ⟨rfl, rfl⟩ | ⟨rfl, rfl⟩ | ⟨rfl, rfl⟩
    · exact ⟨(by decide : 1 < 2 ^ 31), trivial⟩
    · exact ⟨trivial, trivial⟩
    · exact ⟨(by decide : 1 < 2 ^ 31), trivial⟩
  cases reached with
  | root mem =>
    rw [List.mem_singleton.mp mem]
    intro t eq
    cases eq
  | key _ mem => exact (field _ _ mem).1
  | value _ mem => exact (field _ _ mem).2

end RoundTrip

end Starnet.LuaSeri.Metapairs
