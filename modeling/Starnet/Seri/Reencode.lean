import Starnet.Seri.Depth
import Starnet.Seri.PackString
import Starnet.Seri.Truncation

/-! `Serialize` on what `Unserialize` returns. The decoder bounds the strings that it makes by an
`int`, but it bounds neither the depth of the tables nor how long their encoding becomes. -/

namespace Starnet.LuaSeri

open LittleEndian

variable {h : Heap} {α β : Type}

/-! ### Strings of decoded values -/

/-- The strings in a decoded value are shorter than 2^31 bytes. -/
inductive Tree.Short : Tree → Prop
  | nil : Short .nil
  | boolean (b : Bool) : Short (.boolean b)
  | integer (x : Int64) : Short (.integer x)
  | number (bits : UInt64) : Short (.number bits)
  | string {s : List UInt8} (short : s.length < 2 ^ 31) : Short (.string s)
  | lightuserdata (p : UInt64) : Short (.lightuserdata p)
  | table {entries : List (Tree × Tree)} (keys : ∀ entry ∈ entries, Short entry.1)
      (values : ∀ entry ∈ entries, Short entry.2) : Short (.table entries)

/-- The fields of a table whose strings are short. -/
structure ShortFields (entries : List (Tree × Tree)) : Prop where
  keys : ∀ entry ∈ entries, entry.1.Short
  values : ∀ entry ∈ entries, entry.2.Short

theorem ShortFields.nil : ShortFields [] := ⟨by simp, by simp⟩

theorem ShortFields.assign {entries : List (Tree × Tree)} (short : ShortFields entries)
    {key value : Tree} (shortKey : key.Short) (shortValue : value.Short) :
    ShortFields (Tree.assign entries key value) := by
  have kept : ∀ entry ∈ Tree.assign entries key value, entry ∈ entries ∨ entry = (key, value) := by
    intro entry mem
    unfold Tree.assign at mem
    split at mem
    · exact Or.inl (List.mem_of_mem_filter mem)
    · rcases List.mem_append.mp mem with mem | mem
      · exact Or.inl (List.mem_of_mem_filter mem)
      · exact Or.inr (List.mem_singleton.mp mem)
  constructor
  · intro entry mem
    rcases kept entry mem with mem | rfl
    · exact short.keys entry mem
    · exact shortKey
  · intro entry mem
    rcases kept entry mem with mem | rfl
    · exact short.values entry mem
    · exact shortValue

theorem ShortFields.rawset {entries entries' : List (Tree × Tree)} (short : ShortFields entries)
    {key value : Tree} (shortKey : key.Short) (shortValue : value.Short)
    (set : Tree.rawset entries key value = .ok entries') : ShortFields entries' := by
  unfold Tree.rawset at set
  split at set
  · cases set
  · split at set
    · cases set
      exact short.assign (.integer _) shortValue
    · split at set
      · cases set
      · cases set
        exact short.assign shortKey shortValue
  · cases set
    exact short.assign shortKey shortValue

/-- The result of a part of the decoder satisfies `P`. -/
def Gives (P : α → Prop) (x : Except Failure (α × ReadBlock)) : Prop :=
  ∀ a rb, x = .ok (a, rb) → P a

namespace Gives

variable {P : α → Prop} {Q : β → Prop} {x : Except Failure (α × ReadBlock)}

theorem ok {a : α} {rb : ReadBlock} (h : P a) : Gives P (.ok (a, rb)) := by
  intro a' rb' eq
  cases eq
  exact h

theorem error (f : Failure) : Gives P (.error f) := by
  intro a rb eq
  cases eq

theorem bind {f : α × ReadBlock → Except Failure (β × ReadBlock)} (first : Gives P x)
    (next : ∀ a rb, P a → Gives Q (f (a, rb))) : Gives Q (x >>= f) := by
  intro b rb eq
  obtain ⟨r, eq, eq'⟩ := bind_eq_ok eq
  exact next r.1 r.2 (first r.1 r.2 eq) b rb eq'

theorem map (f : α → β) (valid : ∀ a, Q (f a)) :
    Gives Q (do let (a, rb) ← x; return (f a, rb)) :=
  bind (P := fun _ => True) (fun _ _ _ => trivial) fun a _ _ => ok (valid a)

end Gives

theorem getBuffer_gives (rb : ReadBlock) {len : Int} (short : len < 2 ^ 31) :
    Gives (fun s => s.length < 2 ^ 31) (getBuffer rb len) := by
  intro s rb' eq
  obtain ⟨⟨bytes, rb₁⟩, read, eq⟩ := bind_eq_ok eq
  have length : bytes.length ≤ len.toNat := Trace.readOrFail_length read
  dsimp only at eq
  split at eq
  · cases eq
  · cases eq
    exact lt_of_le_of_lt length (by omega)

theorem getLength_gives (rb : ReadBlock) (cookie : UInt8) :
    Gives (fun len => len < 2 ^ 31) (getLength rb cookie) := by
  rw [Trace.getLength_outcome]
  intro len rb' eq
  obtain ⟨r, -, eq⟩ := bind_eq_ok eq
  cases eq
  exact (Int32.ofNat r.1).toInt_lt

section

variable {unpack : ReadBlock → Except Failure (Tree × ReadBlock)}
  (step : ∀ rb, Gives Tree.Short (unpack rb))

include step

theorem unpackArray_gives (count i : Nat) {entries : List (Tree × Tree)}
    (short : ShortFields entries) (rb : ReadBlock) :
    Gives ShortFields (unpackArray unpack count i entries rb) := by
  induction count generalizing i entries rb with
  | zero => exact .ok short
  | succ count ih =>
    exact .bind (step rb) fun value rb' shortValue =>
      ih (i + 1) (short.assign (.integer _) shortValue) rb'

theorem unpackHash_gives (rounds : Nat) {entries : List (Tree × Tree)}
    (short : ShortFields entries) (rb : ReadBlock) :
    Gives ShortFields (unpackHash unpack rounds entries rb) := by
  induction rounds generalizing entries rb with
  | zero => exact .error _
  | succ rounds ih =>
    refine .bind (step rb) fun key rb₁ shortKey => ?_
    dsimp only
    split_ifs
    · exact .ok short
    · refine .bind (step rb₁) fun value rb₂ shortValue => ?_
      dsimp only
      cases set : Tree.rawset entries key value with
      | error msg => exact .error _
      | ok entries' => exact ih (short.rawset shortKey shortValue set) rb₂

theorem unpackTable_gives (fuel : Nat) (rb : ReadBlock) (cookie : UInt8) :
    Gives Tree.Short (unpackTable unpack fuel rb cookie) := by
  refine .bind (P := fun _ => True) (fun _ _ _ => trivial) fun size rb₁ _ => ?_
  refine .bind (unpackArray_gives step _ 1 .nil rb₁) fun entries rb₂ short => ?_
  refine .bind (unpackHash_gives step fuel short rb₂) fun entries' rb₃ short' => ?_
  exact .ok (.table short'.keys short'.values)

theorem pushValue_gives (fuel : Nat) (rb : ReadBlock) (type cookie : UInt8) :
    Gives Tree.Short (pushValue unpack fuel rb type cookie) := by
  unfold pushValue
  split_ifs
  · exact .ok .nil
  · exact .ok (.boolean _)
  · exact .map Tree.number .number
  · exact .map Tree.integer .integer
  · exact .map Tree.lightuserdata .lightuserdata
  · have byte : cookie.toNat < 2 ^ 8 := cookie.toNat_lt
    exact .bind (getBuffer_gives rb (by omega)) fun s rb' short => .ok (.string short)
  · refine .bind (getLength_gives rb cookie) fun len rb' small => ?_
    exact .bind (getBuffer_gives rb' small) fun s rb'' short => .ok (.string short)
  · exact unpackTable_gives step fuel rb cookie
  · exact .error _

end

theorem unpackOne_gives (fuel : Nat) (rb : ReadBlock) : Gives Tree.Short (unpackOne fuel rb) := by
  induction fuel generalizing rb with
  | zero => exact .error _
  | succ fuel ih =>
    refine .bind (P := fun _ => True) (fun _ _ _ => trivial) fun byte rb' _ => ?_
    exact pushValue_gives ih fuel rb' _ _

theorem unpackAll_short (fuel rounds : Nat) {rb : ReadBlock} {ws : List Tree}
    (eq : unpackAll fuel rounds rb = .ok ws) : ∀ w ∈ ws, w.Short := by
  induction rounds generalizing rb ws with
  | zero => cases eq
  | succ rounds ih =>
    rw [unpackAll] at eq
    split at eq
    · cases eq
      simp
    · obtain ⟨r, first, eq⟩ := bind_eq_ok eq
      obtain ⟨others, rest, eq⟩ := bind_eq_ok eq
      cases eq
      rw [List.forall_mem_cons]
      exact ⟨pushValue_gives (unpackOne_gives fuel) fuel _ _ _ r.1 r.2 first, ih rest⟩

theorem unserialize_short {s : List UInt8} {ws : List Tree} (accepted : unserialize s = .ok ws) :
    ∀ w ∈ ws, w.Short := by
  unfold unserialize at accepted
  dsimp only at accepted
  split at accepted
  · cases accepted
    simp
  · exact unpackAll_short _ _ accepted

/-! ### Values that a decoded value is equal to -/

theorem DeepEqFields.mem {fields : List (Value × Value)} {entries : List (Tree × Tree)}
    (same : DeepEqFields h fields entries) {field : Value × Value} (mem : field ∈ fields) :
    ∃ entry ∈ entries, DeepEq h field.1 entry.1 ∧ DeepEq h field.2 entry.2 := by
  cases same with
  | nil => cases mem
  | cons sameKey sameValue others =>
    rcases List.mem_cons.mp mem with rfl | mem
    · exact ⟨_, List.mem_cons_self, sameKey, sameValue⟩
    · obtain ⟨entry, mem', same⟩ := others.mem mem
      exact ⟨entry, List.mem_cons_of_mem _ mem', same⟩

/-- What is reached from values that were decoded is itself equal to a part of them. -/
theorem Reached.decoded {vs : List Value} {ws : List Tree} (same : List.Forall₂ (DeepEq h) vs ws)
    (short : ∀ w ∈ ws, w.Short) {v : Value} (reached : Reached h vs v) :
    ∃ w, DeepEq h v w ∧ w.Short := by
  have field {ref : Nat} {entry : Value × Value} (mem : entry ∈ (h ref).entries)
      (table : ∃ w, DeepEq h (.table ref) w ∧ w.Short) :
      (∃ w, DeepEq h entry.1 w ∧ w.Short) ∧ ∃ w, DeepEq h entry.2 w ∧ w.Short := by
    obtain ⟨w, same, short⟩ := table
    cases same with
    | table perm fields =>
      cases short with
      | table keys values =>
        obtain ⟨entry', mem', sameKey, sameValue⟩ := fields.mem (perm.mem_iff.mp mem)
        exact ⟨⟨_, sameKey, keys entry' mem'⟩, _, sameValue, values entry' mem'⟩
  induction reached with
  | root mem =>
    obtain ⟨i, get⟩ := List.mem_iff_getElem?.mp mem
    obtain ⟨length, related⟩ := List.forall₂_iff_get.mp same
    obtain ⟨bound, rfl⟩ := List.getElem?_eq_some_iff.mp get
    exact ⟨_, related i bound (length ▸ bound), short _ (List.getElem_mem _)⟩
  | key _ mem ih => exact (field mem ih).1
  | value _ mem ih => exact (field mem ih).2

theorem Enclosed.reached {vs : List Value} {depth : Nat} {v : Value}
    (enclosed : Enclosed h vs depth v) : Reached h vs v := by
  induction enclosed with
  | root mem => exact .root mem
  | key _ mem ih => exact .key ih mem
  | value _ mem ih => exact .value ih mem

theorem DeepEq.supported {v : Value} {w : Tree} (same : DeepEq h v w) : v.Supported := by
  cases same <;> trivial

/-! ### The length of an encoding -/

/-- The number of bytes that encode an integer. -/
def integerLength (v : Int64) : Nat :=
  if v = 0 then 1
  else if v ≠ v.toInt32.toInt64 then 9
  else if v < 0 then 5
  else if v < 0x100 then 2
  else if v < 0x10000 then 3
  else 5

/-- The number of bytes that encode a string of `n` bytes. -/
def stringLength (n : Nat) : Nat :=
  n + if n < maxCookie then 1 else if n < 0x10000 then 3 else 5

/-- The number of bytes that encode a value which is enclosed in fewer tables than there are
levels. -/
def valueLength (h : Heap) : (levels : Nat) → Value → Nat
  | 0, _ => 0
  | levels + 1, v =>
    match v with
    | .nil | .boolean _ => 1
    | .integer x => integerLength x
    | .number _ | .lightuserdata _ => 9
    | .string s => stringLength s.length
    | .table ref =>
      let size := arraySize (h ref)
      let header := if size.toInt ≥ maxCookie - 1 then 1 + integerLength size.toInt64 else 1
      header + ((arrayValues (h ref)).map (valueLength h levels)).sum +
        ((hashFields (h ref)).map fun entry =>
          valueLength h levels entry.1 + valueLength h levels entry.2).sum + 1
    | .object _ _ => 0

/-- The number of bytes that encode the values `vs`. -/
def encodedLength (h : Heap) (vs : List Value) : Nat :=
  (vs.map (valueLength h (maxDepth + 1))).sum

theorem wbInteger_length (v : Int64) : (wbInteger v).length = integerLength v := by
  unfold wbInteger integerLength
  split_ifs <;> simp

theorem wbString_length {s : List UInt8} (short : s.length < 2 ^ 31) :
    (wbString s (Int32.ofNat s.length)).length = stringLength s.length := by
  have len : (Int32.ofNat s.length).toInt = s.length := Int32.toInt_ofNat_of_lt short
  have clamp : (Int32.ofNat s.length).toNatClampNeg = s.length := by
    rw [Int32.toNatClampNeg, len, Int.toNat_natCast]
  have word : Int32.ofNat s.length < 0x10000 ↔ s.length < 0x10000 := by
    have bound : (0x10000 : Int32).toInt = 0x10000 := rfl
    rw [Int32.lt_iff_toInt_lt, len, bound]
    omega
  have tiny : (s.length : Int) < (maxCookie : Nat) ↔ s.length < maxCookie := by omega
  unfold wbString stringLength
  simp only [len, clamp, word, tiny, List.take_length]
  split_ifs
  · simp
  · simp
    omega
  · simp
    omega

theorem flatten_length {α : Type} (length : α → Nat) {P : α → List UInt8 → Prop} :
    ∀ {xs : List α} {blocks : List (List UInt8)}, List.Forall₂ P xs blocks →
    (∀ x ∈ xs, ∀ block, P x block → block.length = length x) →
    blocks.flatten.length = (xs.map length).sum
  | [], _, .nil, _ => rfl
  | x :: xs, block :: blocks, .cons first others, each => by
    rw [List.flatten_cons, List.length_append, List.map_cons, List.sum_cons,
      each x List.mem_cons_self block first,
      flatten_length length others fun y mem => each y (List.mem_cons_of_mem _ mem)]

theorem packOne_length : ∀ {levels : Nat} {v : Value} {bytes : List UInt8},
    packOne h levels v = .ok bytes → (∀ w, Reached h [v] w → IntSized h w) →
    bytes.length = valueLength h levels v
  | 0, _, _, eq, _ => by cases eq
  | levels + 1, v, bytes, eq, sized => by
    have root : Reached h [v] v := .root (List.mem_singleton.mpr rfl)
    cases v with
    | nil | boolean | number | lightuserdata =>
      cases eq
      rfl
    | integer x =>
      cases eq
      exact wbInteger_length x
    | string s =>
      cases eq
      exact wbString_length (sized _ root)
    | object type ref => cases eq
    | table ref =>
      obtain ⟨array, hash, packed, packed', rfl⟩ := wbTable_cases eq
      have inner {u : Value} (reached : u = .nil ∨ ∃ entry ∈ (h ref).entries,
          u = entry.1 ∨ u = entry.2) {block : List UInt8} (packed : packOne h levels u = .ok block) :
          block.length = valueLength h levels u := by
        refine packOne_length packed fun w inner => ?_
        rcases reached with rfl | ⟨⟨k, u⟩, mem, rfl | rfl⟩
        · rw [inner.eq_nil]
          trivial
        · exact sized w (inner.trans (.key root mem))
        · exact sized w (inner.trans (.value root mem))
      have arrayLength := flatten_length (valueLength h levels) packed
        fun u mem block packed => by
          obtain ⟨i, -, get⟩ := List.mem_map.mp mem
          by_cases ne : u = .nil
          · exact inner (Or.inl ne) packed
          · exact inner (Or.inr ⟨_, (rawget_eq_iff (h ref).distinct ne).mp get, Or.inr rfl⟩) packed
      have hashLength := flatten_length (fun entry : Value × Value =>
        valueLength h levels entry.1 + valueLength h levels entry.2) packed'
        fun entry mem block packed => by
          obtain ⟨key, value, rfl, first, second⟩ := packed
          have mem := List.mem_of_mem_filter mem
          rw [List.length_append, inner (Or.inr ⟨entry, mem, Or.inl rfl⟩) first,
            inner (Or.inr ⟨entry, mem, Or.inr rfl⟩) second]
      have header : (wbTableHeader (arraySize (h ref))).length =
          if (arraySize (h ref)).toInt ≥ maxCookie - 1
          then 1 + integerLength (arraySize (h ref)).toInt64 else 1 := by
        unfold wbTableHeader
        split_ifs
        · rw [List.length_cons, wbInteger_length, Nat.add_comm]
        · rfl
      rw [List.length_append, List.length_append, List.length_append, header, arrayLength,
        hashLength]
      rfl

theorem serialize_length {vs : List Value} {bytes : List UInt8}
    (serialized : serialize h vs = .ok bytes) (sized : ∀ v, Reached h vs v → IntSized h v) :
    bytes.length = encodedLength h vs := by
  obtain ⟨blocks, rfl, packed⟩ := serialize_blocks serialized
  exact flatten_length (valueLength h (maxDepth + 1)) packed fun v mem block packed =>
    packOne_length packed fun w inner => sized w (inner.trans (.root mem))

/-! ### Encoding what was decoded -/

/-- `Serialize` accepts the values, and `Unserialize` gives them back. -/
def Reencodes (h : Heap) (vs : List Value) : Prop :=
  ∃ bytes, serialize h vs = .ok bytes ∧
    ∃ ws, unserialize bytes = .ok ws ∧ List.Forall₂ (DeepEq h) vs ws

/-- An encoding of 2^31 bytes or more is not decoded: its length becomes another `int`, so that
nothing is decoded, or only a proper prefix. -/
theorem length_lt_of_unserialize {vs : List Value} {bytes : List UInt8}
    (serialized : serialize h vs = .ok bytes) (sized : ∀ v, Reached h vs v → IntSized h v)
    {ws : List Tree} (decoded : unserialize bytes = .ok ws)
    (same : List.Forall₂ (DeepEq h) vs ws) : bytes.length < 2 ^ 31 := by
  by_contra long
  have long : 2 ^ 31 ≤ bytes.length := not_lt.mp long
  have nothing : ws ≠ [] := by
    rintro rfl
    cases same
    cases serialized
    exact absurd long (by decide)
  have bound : (Int32.ofNat bytes.length).toInt < 2 ^ 31 := (Int32.ofNat bytes.length).toInt_lt
  by_cases empty : (Int32.ofNat bytes.length).toInt < 1
  · refine nothing ?_
    unfold unserialize at decoded
    dsimp only at decoded
    split at decoded
    · cases decoded
      rfl
    · have none : (⟨bytes, (Int32.ofNat bytes.length).toInt, 0⟩ : ReadBlock).read 1 = none :=
        if_pos empty
      rw [unpackAll, none] at decoded
      cases decoded
      rfl
  · obtain ⟨n, len⟩ : ∃ n : Nat, (Int32.ofNat bytes.length).toInt = n :=
      ⟨(Int32.ofNat bytes.length).toInt.toNat, by omega⟩
    have length : (bytes.take n).length = n := List.length_take_of_le (by omega)
    have start : bytes.take n ≠ [] := by
      intro nil
      rw [nil, List.length_nil] at length
      omega
    have prefixed : unserialize bytes = unserialize (bytes.take n) := by
      have run := unpackAll_append (show (bytes.take n).length < 2 ^ 31 by omega) start (bytes.drop n)
        (show (bytes.take n).length + 1 ≤ bytes.length + 1 by omega)
        (show (bytes.take n).length + 1 ≤ bytes.length + 1 by omega)
      rw [List.take_append_drop, length] at run
      rw [← run, unserialize]
      simp only [len]
      exact if_neg (by omega)
    rw [prefixed] at decoded
    rcases unserialize_cut serialized sized (List.take_prefix n bytes)
      (fun eq => by rw [eq] at length; omega) (by omega) with
      ⟨f, failed, -⟩ | ⟨us, first, ne, -, ws', decoded', same'⟩
    · cases failed.symm.trans decoded
    · cases decoded'.symm.trans decoded
      exact ne (first.eq_of_length (same'.length_eq.trans same.length_eq.symm))

/-- `{t}` for another table. -/
def wrapTable (ref : Nat) : Table where
  entries := [(.integer 1, .table ref)]
  rawlen := 1
  distinct := by simp
  keys := by simp [Value.isKey]
  values := by simp
  fits := by decide
  present := Or.inr (by simp [rawget])
  absent := fun _ => rfl

/-- Table 0 is nested `n` tables deep. -/
def nestedHeap (n ref : Nat) : Table := if ref < n then wrapTable (ref + 1) else emptyTable

theorem nestedHeap_intSized (n : Nat) {v : Value} (reached : Reached (nestedHeap n) [.table 0] v) :
    IntSized (nestedHeap n) v := by
  have fits (ref : Nat) : SizeFits (arraySize (nestedHeap n ref)) := by
    unfold nestedHeap
    split
    · exact Or.inl (show 0 ≤ (1 : Int32).toInt by decide)
    · exact Or.inl (by decide)
  have entry {ref : Nat} {k v : Value} (mem : (k, v) ∈ (nestedHeap n ref).entries) :
      k = .integer 1 ∧ v = .table (ref + 1) := by
    unfold nestedHeap at mem
    split at mem
    · simpa [wrapTable] using mem
    · cases mem
  cases reached with
  | root mem => exact List.mem_singleton.mp mem ▸ fits 0
  | key _ mem =>
    rw [(entry mem).1]
    trivial
  | value _ mem =>
    rw [(entry mem).2]
    exact fits _

/-- The decoder takes the bytes that the encoder would write without its limit. -/
theorem nestedHeap_decodes {n levels : Nat} {bytes : List UInt8}
    (packed : packOne (nestedHeap n) levels (.table 0) = .ok bytes) (short : bytes.length < 2 ^ 31) :
    ∃ ws, unserialize bytes = .ok ws ∧ List.Forall₂ (DeepEq (nestedHeap n)) [.table 0] ws := by
  have single : [bytes].flatten = bytes := by simp
  rw [← single] at short ⊢
  exact unserialize_flatten (.cons packed .nil) short fun _ => nestedHeap_intSized n

/-- The bytes of 34 tables in each other. -/
def deepBytes : List UInt8 := (packOne (nestedHeap 33) 35 (.table 0)).toOption.getD []

end Starnet.LuaSeri
