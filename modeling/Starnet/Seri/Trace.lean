import Starnet.Lib.Outcome
import Starnet.Seri.Unpack

/-! The decoder with each call of `rb_read` as an event. Without the events it is the decoder, so
that what holds of the calls holds of its run. -/

namespace Starnet.LuaSeri

open LittleEndian Lib

/-- A call of `rb_read`: the cursor before it and the size, with the length field that the size
comes from when a string is read. -/
structure Access where
  rb : ReadBlock
  sz : Int
  field : Option Nat
  deriving DecidableEq, Repr

/-- A run of the decoder, or of a part of it. -/
abbrev Run (α : Type) := Traced Failure Access α

namespace Trace

/-- `rb_read` of `sz` bytes, with `invalid_stream` when they are missing. -/
def readOrFail (rb : ReadBlock) (sz : Int) (line : Nat) : Run (List UInt8 × ReadBlock) :=
  .event ⟨rb, sz, none⟩ (rb.readOrFail sz line)

def readByte (rb : ReadBlock) (line : Nat) : Run (UInt8 × ReadBlock) := do
  let (bytes, rb) ← readOrFail rb 1 line
  return (bytes.headD 0, rb)

/-- `get_integer`. -/
def getInteger (rb : ReadBlock) (cookie : UInt8) : Run (Int64 × ReadBlock) :=
  if cookie = typeNumberZero then pure (0, rb)
  else if cookie = typeNumberByte then do
    let (bytes, rb) ← readOrFail rb 1 283
    return (Int64.ofNat (ofBytes bytes), rb)
  else if cookie = typeNumberWord then do
    let (bytes, rb) ← readOrFail rb 2 291
    return (Int64.ofNat (ofBytes bytes), rb)
  else if cookie = typeNumberDword then do
    let (bytes, rb) ← readOrFail rb 4 299
    return (signed32 (ofBytes bytes), rb)
  else if cookie = typeNumberQword then do
    let (bytes, rb) ← readOrFail rb 8 307
    return (Int64.ofNat (ofBytes bytes), rb)
  else .lift (rb.invalidStream 312)

/-- `get_real` and `get_pointer`. -/
def getBits (line : Nat) (rb : ReadBlock) : Run (UInt64 × ReadBlock) := do
  let (bytes, rb) ← readOrFail rb 8 line
  return (UInt64.ofNat (ofBytes bytes), rb)

/-- `get_buffer`, called with the length field `n`, which becomes an `int`. -/
def getBuffer (rb : ReadBlock) (n : Nat) : Run (List UInt8 × ReadBlock) :=
  let len := (Int32.ofNat n).toInt
  .event ⟨rb, len, some n⟩ (LuaSeri.getBuffer rb len)

/-- The length field of a long string. -/
def getLength (rb : ReadBlock) (cookie : UInt8) : Run (Nat × ReadBlock) :=
  if cookie = 2 then do
    let (bytes, rb) ← readOrFail rb 2 408
    return (ofBytes bytes, rb)
  else if cookie = 4 then do
    let (bytes, rb) ← readOrFail rb 4 419
    return (ofBytes bytes, rb)
  else .lift (rb.invalidStream 415)

section

variable (unpack : ReadBlock → Run (Tree × ReadBlock))

/-- The loop of `unpack_table` over `count` elements from index `i` on. -/
def unpackArray : (count i : Nat) → List (Tree × Tree) → ReadBlock →
    Run (List (Tree × Tree) × ReadBlock)
  | 0, _, entries, rb => pure (entries, rb)
  | count + 1, i, entries, rb => do
    let (value, rb) ← unpack rb
    unpackArray count (i + 1) (Tree.assign entries (.integer (Int64.ofNat i)) value) rb

/-- The loop of `unpack_table` up to the first key that is nil. -/
def unpackHash : (fuel : Nat) → List (Tree × Tree) → ReadBlock →
    Run (List (Tree × Tree) × ReadBlock)
  | 0, _, _ => .lift (.error .outOfFuel)
  | fuel + 1, entries, rb => do
    let (key, rb) ← unpack rb
    if key.isNil then return (entries, rb)
    let (value, rb) ← unpack rb
    match Tree.rawset entries key value with
    | .error msg => .lift (.error (.raised msg))
    | .ok entries => unpackHash fuel entries rb

/-- The array size of `unpack_table`. -/
def getArraySize (rb : ReadBlock) (cookie : UInt8) : Run (Int32 × ReadBlock) :=
  if cookie.toNat = maxCookie - 1 then do
    let (byte, rb) ← readByte rb 355
    if typeOf byte ≠ typeNumber ∨ cookieOf byte = typeNumberReal then .lift (rb.invalidStream 360)
    else do
      let (size, rb) ← getInteger rb (cookieOf byte)
      return (size.toInt32, rb)
  else pure (Int32.ofNat cookie.toNat, rb)

/-- `unpack_table`, where `unpack` is `unpack_one`. -/
def unpackTable (fuel : Nat) (rb : ReadBlock) (cookie : UInt8) : Run (Tree × ReadBlock) := do
  let (size, rb) ← getArraySize rb cookie
  let (entries, rb) ← unpackArray unpack size.toNatClampNeg 1 [] rb
  let (entries, rb) ← unpackHash unpack fuel entries rb
  return (.table entries, rb)

/-- `push_value`, where `unpack` is `unpack_one`. -/
def pushValue (fuel : Nat) (rb : ReadBlock) (type cookie : UInt8) : Run (Tree × ReadBlock) :=
  if type = typeNil then pure (.nil, rb)
  else if type = typeBoolean then pure (.boolean (cookie ≠ 0), rb)
  else if type = typeNumber then
    if cookie = typeNumberReal then do
      let (bits, rb) ← getBits 322 rb
      return (.number bits, rb)
    else do
      let (x, rb) ← getInteger rb cookie
      return (.integer x, rb)
  else if type = typeUserdata then do
    let (p, rb) ← getBits 332 rb
    return (.lightuserdata p, rb)
  else if type = typeShortString then do
    let (s, rb) ← getBuffer rb cookie.toNat
    return (.string s, rb)
  else if type = typeLongString then do
    let (n, rb) ← getLength rb cookie
    let (s, rb) ← getBuffer rb n
    return (.string s, rb)
  else if type = typeTable then unpackTable unpack fuel rb cookie
  else .lift (rb.invalidStream 432)

end

/-- `unpack_one`. -/
def unpackOne : (fuel : Nat) → ReadBlock → Run (Tree × ReadBlock)
  | 0, _ => .lift (.error .outOfFuel)
  | fuel + 1, rb => do
    let (byte, rb) ← readByte rb 443
    pushValue (fun rb => unpackOne fuel rb) fuel rb (typeOf byte) (cookieOf byte)

/-- The loop of `unpack_buffer`, whose first read may fail. -/
def unpackAll (fuel : Nat) : (rounds : Nat) → ReadBlock → Run (List Tree)
  | 0, _ => .lift (.error .outOfFuel)
  | rounds + 1, rb => do
    match ← .event ⟨rb, 1, none⟩ (.ok (rb.read 1)) with
    | none => return []
    | some (bytes, rb) =>
      let byte := bytes.headD 0
      let (value, rb) ← pushValue (unpackOne fuel) fuel rb (typeOf byte) (cookieOf byte)
      return value :: (← unpackAll fuel rounds rb)

/-- `LuaSeri::Unserialize`. -/
def unserialize (s : List UInt8) : Run (List Tree) :=
  let len := (Int32.ofNat s.length).toInt
  if len = 0 then pure []
  else unpackAll (s.length + 1) (s.length + 1) ⟨s, len, 0⟩

/-! ### The decoder without its events -/

@[simp] theorem readOrFail_outcome (rb : ReadBlock) (sz : Int) (line : Nat) :
    (readOrFail rb sz line).outcome = rb.readOrFail sz line := rfl

@[simp] theorem readByte_outcome (rb : ReadBlock) (line : Nat) :
    (readByte rb line).outcome = rb.readByte line := by
  simp only [readByte, Traced.outcome_bind, readOrFail_outcome]
  rfl

@[simp] theorem getInteger_outcome (rb : ReadBlock) (cookie : UInt8) :
    (getInteger rb cookie).outcome = LuaSeri.getInteger rb cookie := by
  unfold getInteger LuaSeri.getInteger
  split_ifs
  all_goals first
    | rfl
    | simp only [Traced.outcome_bind, readOrFail_outcome]; rfl

@[simp] theorem getBits_outcome (line : Nat) (rb : ReadBlock) :
    (getBits line rb).outcome = LuaSeri.getBits line rb := by
  simp only [getBits, Traced.outcome_bind, readOrFail_outcome]
  rfl

@[simp] theorem getBuffer_outcome (rb : ReadBlock) (n : Nat) :
    (getBuffer rb n).outcome = LuaSeri.getBuffer rb (Int32.ofNat n).toInt := rfl

theorem readOrFail_length {rb rb' : ReadBlock} {sz : Int} {line : Nat} {bytes : List UInt8}
    (eq : rb.readOrFail sz line = .ok (bytes, rb')) : bytes.length ≤ sz.toNat := by
  rw [ReadBlock.readOrFail, ReadBlock.read] at eq
  split at eq
  · cases eq
  · rename_i result read
    split at read
    · cases read
    · cases read
      cases eq
      exact List.length_take_le ..

/-- The length fields pass through `int`, which keeps those of two bytes. -/
theorem getLength_outcome (rb : ReadBlock) (cookie : UInt8) :
    LuaSeri.getLength rb cookie = (getLength rb cookie).outcome >>= fun r =>
      .ok ((Int32.ofNat r.1).toInt, r.2) := by
  unfold getLength LuaSeri.getLength
  split_ifs
  · simp only [Traced.outcome_bind, readOrFail_outcome]
    cases read : rb.readOrFail 2 408 with
    | error f => rfl
    | ok r =>
      have short : ofBytes r.1 < 256 ^ 2 := ofBytes_lt_pow (readOrFail_length read)
      have same : (Int32.ofNat (ofBytes r.1)).toInt = ofBytes r.1 :=
        Int32.toInt_ofNat_of_lt (by omega)
      change Except.ok ((ofBytes r.1 : Int), r.2) = .ok ((Int32.ofNat (ofBytes r.1)).toInt, r.2)
      rw [same]
  · simp only [Traced.outcome_bind, readOrFail_outcome]
    cases rb.readOrFail 4 419 <;> rfl
  · rfl

@[simp] theorem getArraySize_outcome (rb : ReadBlock) (cookie : UInt8) :
    (getArraySize rb cookie).outcome = LuaSeri.getArraySize rb cookie := by
  unfold getArraySize LuaSeri.getArraySize
  split_ifs
  · simp only [Traced.outcome_bind, readByte_outcome]
    congr 1
    funext ⟨byte, rb⟩
    by_cases invalid : typeOf byte ≠ typeNumber ∨ cookieOf byte = typeNumberReal
    · simp only [if_pos invalid]
      rfl
    · simp only [if_neg invalid, Traced.outcome_bind, getInteger_outcome]
      rfl
  · rfl

section

variable {unpack : ReadBlock → Run (Tree × ReadBlock)}
  {unpack' : ReadBlock → Except Failure (Tree × ReadBlock)}

theorem unpackArray_outcome (same : ∀ rb, (unpack rb).outcome = unpack' rb) (count i : Nat)
    (entries : List (Tree × Tree)) (rb : ReadBlock) :
    (unpackArray unpack count i entries rb).outcome =
      LuaSeri.unpackArray unpack' count i entries rb := by
  induction count generalizing i entries rb with
  | zero => rfl
  | succ count ih =>
    simp only [unpackArray, LuaSeri.unpackArray, Traced.outcome_bind, same, ih]

theorem unpackHash_outcome (same : ∀ rb, (unpack rb).outcome = unpack' rb) (fuel : Nat)
    (entries : List (Tree × Tree)) (rb : ReadBlock) :
    (unpackHash unpack fuel entries rb).outcome = LuaSeri.unpackHash unpack' fuel entries rb := by
  induction fuel generalizing entries rb with
  | zero => rfl
  | succ fuel ih =>
    simp only [unpackHash, LuaSeri.unpackHash, Traced.outcome_bind, same]
    congr 1
    funext ⟨key, rb⟩
    cases nil : key.isNil with
    | true => rfl
    | false =>
      simp only [Bool.false_eq_true, if_false, Traced.outcome_bind, same]
      congr 1
      funext ⟨value, rb⟩
      cases set : Tree.rawset entries key value with
      | error msg => rfl
      | ok entries => exact ih entries rb

theorem unpackTable_outcome (same : ∀ rb, (unpack rb).outcome = unpack' rb) (fuel : Nat)
    (rb : ReadBlock) (cookie : UInt8) :
    (unpackTable unpack fuel rb cookie).outcome = LuaSeri.unpackTable unpack' fuel rb cookie := by
  simp only [unpackTable, LuaSeri.unpackTable, Traced.outcome_bind, getArraySize_outcome,
    unpackArray_outcome same, unpackHash_outcome same]
  rfl

theorem pushValue_outcome (same : ∀ rb, (unpack rb).outcome = unpack' rb) (fuel : Nat)
    (rb : ReadBlock) (type cookie : UInt8) :
    (pushValue unpack fuel rb type cookie).outcome =
      LuaSeri.pushValue unpack' fuel rb type cookie := by
  unfold pushValue LuaSeri.pushValue
  split_ifs
  · rfl
  · rfl
  · simp only [Traced.outcome_bind, getBits_outcome]
    rfl
  · simp only [Traced.outcome_bind, getInteger_outcome]
    rfl
  · simp only [Traced.outcome_bind, getBits_outcome]
    rfl
  · have byte : cookie.toNat < 2 ^ 8 := cookie.toNat_lt
    have small : (Int32.ofNat cookie.toNat).toInt = cookie.toNat :=
      Int32.toInt_ofNat_of_lt (by omega)
    simp only [Traced.outcome_bind, getBuffer_outcome, small]
    rfl
  · rw [getLength_outcome]
    simp only [Traced.outcome_bind, getBuffer_outcome]
    cases (getLength rb cookie).outcome <;> rfl
  · exact unpackTable_outcome same fuel rb cookie
  · rfl

end

@[simp] theorem unpackOne_outcome (fuel : Nat) (rb : ReadBlock) :
    (unpackOne fuel rb).outcome = LuaSeri.unpackOne fuel rb := by
  induction fuel generalizing rb with
  | zero => rfl
  | succ fuel ih =>
    simp only [unpackOne, LuaSeri.unpackOne, Traced.outcome_bind, readByte_outcome,
      pushValue_outcome ih]

theorem unpackAll_outcome (fuel rounds : Nat) (rb : ReadBlock) :
    (unpackAll fuel rounds rb).outcome = LuaSeri.unpackAll fuel rounds rb := by
  induction rounds generalizing rb with
  | zero => rfl
  | succ rounds ih =>
    simp only [unpackAll, LuaSeri.unpackAll, Traced.outcome_bind, Traced.outcome_event]
    cases rb.read 1 with
    | none => rfl
    | some r =>
      change ((do
        let (value, rb) ← pushValue (unpackOne fuel) fuel r.2 (typeOf (r.1.headD 0))
          (cookieOf (r.1.headD 0))
        return value :: (← unpackAll fuel rounds rb)) : Run (List Tree)).outcome = _
      simp only [Traced.outcome_bind, pushValue_outcome (unpackOne_outcome fuel), ih]
      rfl

/-- The events change nothing in what `Unserialize` returns. -/
theorem unserialize_outcome (s : List UInt8) :
    (unserialize s).outcome = LuaSeri.unserialize s := by
  simp only [unserialize, LuaSeri.unserialize]
  split_ifs
  · rfl
  · exact unpackAll_outcome ..

end Trace

/-! ### The cursor -/

/-- A cursor of the input. -/
structure ReadBlock.Inside (input : List UInt8) (rb : ReadBlock) : Prop where
  buffer : rb.buffer = input
  ptr : 0 ≤ rb.ptr
  len : 0 ≤ rb.len
  total : rb.ptr + rb.len = input.length

/-- What is true of each call of `rb_read`. -/
structure Access.Inside (input : List UInt8) (access : Access) : Prop where
  cursor : access.rb.Inside input
  fixed : access.field = none → 0 ≤ access.sz
  field : ∀ n, access.field = some n → n < 2 ^ 32 ∧ access.sz = (Int32.ofNat n).toInt

/-- How the decoder refuses the length field `n`. -/
def ReadBlock.refusal (rb : ReadBlock) (n : Nat) : Failure :=
  if n < 2 ^ 31 then .raised s!"Invalid serialize stream {rb.len} (line:{342})"
  else .raised "memory allocation error: block too big"

/-- A length field that is larger than the remaining input ends the run. -/
def Access.fatal (access : Access) : Option Failure :=
  access.field.bind fun n => if access.rb.len < n then some (access.rb.refusal n) else none

/-- A part of the decoder keeps the cursor inside and leaves at most `bound` bytes. -/
def Keeps {α : Type} (input : List UInt8) (bound : Int) : Run (α × ReadBlock) → Prop :=
  Traced.Sound (Access.Inside input) Access.fatal (· ≠ .outOfFuel)
    fun r => r.2.Inside input ∧ r.2.len ≤ bound

namespace Keeps

variable {α β : Type} {input : List UInt8} {bound bound' : Int} {rb : ReadBlock}

theorem pure {a : α} (inside : rb.Inside input) (le : rb.len ≤ bound) :
    Keeps input bound (Pure.pure (a, rb) : Run (α × ReadBlock)) := Traced.Sound.pure ⟨inside, le⟩

theorem raise (msg : String) :
    Keeps input bound (.lift (.error (.raised msg)) : Run (α × ReadBlock)) :=
  Traced.Sound.throw (by simp)

theorem invalidStream (rb : ReadBlock) (line : Nat) :
    Keeps input bound (.lift (rb.invalidStream line) : Run (α × ReadBlock)) := raise _

theorem mono {x : Run (α × ReadBlock)} (keeps : Keeps input bound x) (le : bound ≤ bound') :
    Keeps input bound' x := Traced.Sound.mono keeps fun _ h => ⟨h.1, h.2.trans le⟩

theorem bind {x : Run (α × ReadBlock)} {f : α × ReadBlock → Run (β × ReadBlock)}
    (first : Keeps input bound x)
    (next : ∀ a rb, rb.Inside input → rb.len ≤ bound → Keeps input bound' (f (a, rb))) :
    Keeps input bound' (x >>= f) :=
  Traced.Sound.bind first fun r h => next r.1 r.2 h.1 h.2

end Keeps


theorem ReadBlock.Inside.readOrFail {input : List UInt8} {rb : ReadBlock} (inside : rb.Inside input)
    {sz : Int} (positive : 0 ≤ sz) (line : Nat) :
    (rb.len < sz ∧ rb.readOrFail sz line = rb.invalidStream line) ∨
      ∃ bytes rb', rb.readOrFail sz line = .ok (bytes, rb') ∧ rb'.Inside input ∧
        rb'.len = rb.len - sz := by
  obtain ⟨buffer, ptr, len, sum⟩ := inside
  by_cases short : rb.len < sz
  · refine Or.inl ⟨short, ?_⟩
    rw [ReadBlock.readOrFail, ReadBlock.read, if_pos short]
  · have read : rb.readOrFail sz line = .ok ((rb.buffer.drop rb.ptr.toNat).take sz.toNat,
        { rb with ptr := rb.ptr + sz, len := rb.len - sz }) := by
      rw [ReadBlock.readOrFail, ReadBlock.read, if_neg short]
    refine Or.inr ⟨_, _, read, ⟨buffer, ?_, ?_, ?_⟩, rfl⟩
    · show 0 ≤ rb.ptr + sz
      omega
    · show 0 ≤ rb.len - sz
      omega
    · show rb.ptr + sz + (rb.len - sz) = input.length
      omega

/-- From 2^31 on a length field becomes a negative `int`. -/
theorem toInt_ofNat_neg {n : Nat} (low : 2 ^ 31 ≤ n) (high : n < 2 ^ 32) :
    (Int32.ofNat n).toInt < 0 := by
  have size : (Int32.size : Int) = 2 ^ 32 := rfl
  rw [Int32.toInt_ofNat', Int.bmod_def, size]
  split <;> omega

namespace Trace

variable {input : List UInt8} {rb : ReadBlock}

theorem readOrFail_sound (inside : rb.Inside input) {sz : Int} (positive : 0 ≤ sz) (line : Nat) :
    Traced.Sound (Access.Inside input) Access.fatal (· ≠ .outOfFuel)
      (fun r => r.1.length ≤ sz.toNat ∧ r.2.Inside input ∧ r.2.len ≤ rb.len - sz)
      (readOrFail rb sz line) := by
  refine .event ⟨inside, fun _ => positive, fun n some => by cases some⟩ ?_ ?_ ?_
  · intro f fatal
    cases fatal
  · rintro ⟨bytes, rb'⟩ eq
    rcases inside.readOrFail positive line with ⟨-, failed⟩ | ⟨bytes', rb'', read, inside', len⟩
    · cases failed.symm.trans eq
    · cases read.symm.trans eq
      exact ⟨readOrFail_length read, inside', len.le⟩
  · intro f eq
    rcases inside.readOrFail positive line with ⟨-, failed⟩ | ⟨bytes, rb', read, -, -⟩
    · cases failed.symm.trans eq
      simp
    · cases read.symm.trans eq

theorem readOrFail_keeps (inside : rb.Inside input) {sz : Int} (positive : 0 ≤ sz) (line : Nat) :
    Keeps input (rb.len - sz) (readOrFail rb sz line) :=
  (readOrFail_sound inside positive line).mono fun _ h => h.2

theorem readByte_keeps (inside : rb.Inside input) (line : Nat) :
    Keeps input (rb.len - 1) (readByte rb line) :=
  (readOrFail_keeps inside (by decide) line).bind fun _ _ inside' le => .pure inside' le

theorem getBits_keeps (inside : rb.Inside input) (line : Nat) :
    Keeps input rb.len (getBits line rb) :=
  (readOrFail_keeps inside (by decide) line).bind fun _ _ inside' le => .pure inside' (by omega)

theorem getInteger_keeps (inside : rb.Inside input) (cookie : UInt8) :
    Keeps input rb.len (getInteger rb cookie) := by
  have read {sz : Int} (positive : 0 ≤ sz) (line : Nat) (f : List UInt8 → Int64) :
      Keeps input rb.len (do
        let (bytes, rb) ← readOrFail rb sz line
        return (f bytes, rb)) :=
    (readOrFail_keeps inside positive line).bind fun _ _ inside' le => .pure inside' (by omega)
  unfold getInteger
  split_ifs
  · exact .pure inside le_rfl
  · exact read (by decide) 283 fun bytes => Int64.ofNat (ofBytes bytes)
  · exact read (by decide) 291 fun bytes => Int64.ofNat (ofBytes bytes)
  · exact read (by decide) 299 fun bytes => signed32 (ofBytes bytes)
  · exact read (by decide) 307 fun bytes => Int64.ofNat (ofBytes bytes)
  · exact .invalidStream rb 312

/-- A length field below 2^31 is compared with what is left. -/
theorem getBuffer_keeps_small (inside : rb.Inside input) {n : Nat} (small : n < 2 ^ 31) :
    Keeps input rb.len (getBuffer rb n) := by
  have same : (Int32.ofNat n).toInt = n := Int32.toInt_ofNat_of_lt small
  have positive : ¬(n : Int) < 0 := by omega
  have event : Access.Inside input ⟨rb, n, some n⟩ := by
    refine ⟨inside, fun none => absurd none (Option.some_ne_none n), fun m eq => ?_⟩
    cases eq
    exact ⟨by omega, same.symm⟩
  unfold getBuffer
  simp only [same]
  rcases inside.readOrFail (Int.natCast_nonneg n) 342 with
    ⟨more, failed⟩ | ⟨bytes, rb', read, inside', left⟩
  · have refused : LuaSeri.getBuffer rb n = rb.invalidStream 342 := by
      simp only [LuaSeri.getBuffer, failed]
      rfl
    rw [refused]
    refine .event event ?_ ?_ ?_
    · intro f fatal
      simp only [Access.fatal, Option.bind_some, if_pos more, Option.some_inj] at fatal
      rw [← fatal, ReadBlock.refusal, if_pos small]
      rfl
    · intro r eq
      cases eq
    · intro f eq
      cases eq
      simp
  · have enough : ¬rb.len < n := by
      have := inside'.len
      omega
    have result : LuaSeri.getBuffer rb n = .ok (bytes, rb') := by
      simp only [LuaSeri.getBuffer, read, if_neg positive]
      rfl
    rw [result]
    refine .event event ?_ ?_ ?_
    · intro f fatal
      simp only [Access.fatal, Option.bind_some, if_neg enough] at fatal
      cases fatal
    · intro r eq
      cases eq
      exact ⟨inside', by rw [left]; omega⟩
    · intro f eq
      cases eq

/-- A length field from 2^31 on passes the comparison, and `lua_pushlstring` raises an error. -/
theorem getBuffer_keeps_large (inside : rb.Inside input) (short : input.length < 2 ^ 31) {n : Nat}
    (low : 2 ^ 31 ≤ n) (high : n < 2 ^ 32) : Keeps input rb.len (getBuffer rb n) := by
  obtain ⟨buffer, ptr, len, sum⟩ := inside
  have negative := toInt_ofNat_neg low high
  have enough : ¬rb.len < (Int32.ofNat n).toInt := by omega
  have more : rb.len < n := by omega
  have refused : LuaSeri.getBuffer rb (Int32.ofNat n).toInt =
      .error (.raised "memory allocation error: block too big") := by
    simp only [LuaSeri.getBuffer, ReadBlock.readOrFail, ReadBlock.read, if_neg enough]
    exact if_pos negative
  unfold getBuffer
  simp only [refused]
  refine .event ⟨⟨buffer, ptr, len, sum⟩, ?_, ?_⟩ ?_ ?_ ?_
  · exact fun none => absurd none (Option.some_ne_none n)
  · intro m eq
    cases eq
    exact ⟨high, rfl⟩
  · intro f fatal
    simp only [Access.fatal, Option.bind_some, if_pos more, Option.some_inj] at fatal
    rw [← fatal, ReadBlock.refusal, if_neg (not_lt.mpr low)]
  · intro r eq
    cases eq
  · intro f eq
    cases eq
    simp

theorem getBuffer_keeps (inside : rb.Inside input) (short : input.length < 2 ^ 31) {n : Nat}
    (field : n < 2 ^ 32) : Keeps input rb.len (getBuffer rb n) := by
  by_cases small : n < 2 ^ 31
  · exact getBuffer_keeps_small inside small
  · exact getBuffer_keeps_large inside short (not_lt.mp small) field

/-- A length field has at most 4 bytes. -/
theorem getLength_sound (inside : rb.Inside input) (cookie : UInt8) :
    Traced.Sound (Access.Inside input) Access.fatal (· ≠ .outOfFuel)
      (fun r => r.1 < 2 ^ 32 ∧ r.2.Inside input ∧ r.2.len ≤ rb.len) (getLength rb cookie) := by
  have read {sz : Int} (positive : 0 ≤ sz) (small : sz.toNat ≤ 4) (line : Nat) :
      Traced.Sound (Access.Inside input) Access.fatal (· ≠ .outOfFuel)
        (fun r => r.1 < 2 ^ 32 ∧ r.2.Inside input ∧ r.2.len ≤ rb.len) (do
          let (bytes, rb) ← readOrFail rb sz line
          return (ofBytes bytes, rb)) := by
    refine (readOrFail_sound inside positive line).bind ?_
    rintro ⟨bytes, rb'⟩ ⟨length, inside', le⟩
    have field : ofBytes bytes < 256 ^ 4 := ofBytes_lt_pow (length.trans small)
    have le : rb'.len ≤ rb.len - sz := le
    exact .pure ⟨field, inside', by show rb'.len ≤ rb.len; omega⟩
  unfold getLength
  split_ifs
  · exact read (by decide) (by decide) 408
  · exact read (by decide) (by decide) 419
  · exact .throw (by simp)

theorem getArraySize_keeps (inside : rb.Inside input) (cookie : UInt8) :
    Keeps input rb.len (getArraySize rb cookie) := by
  unfold getArraySize
  split_ifs
  · refine (readByte_keeps inside 355).bind fun byte rb' inside' le => ?_
    dsimp only
    split_ifs
    · exact .invalidStream rb' 360
    · refine (getInteger_keeps inside' _).bind fun size rb'' inside'' le' => ?_
      exact .pure inside'' (le'.trans (by omega))
  · exact .pure inside le_rfl

section

variable {unpack : ReadBlock → Run (Tree × ReadBlock)} {fuel : Nat}

theorem unpackArray_keeps
    (step : ∀ rb : ReadBlock, rb.Inside input → rb.len < fuel →
      Keeps input (rb.len - 1) (unpack rb))
    (count i : Nat) (entries : List (Tree × Tree)) {rb : ReadBlock} (inside : rb.Inside input)
    (enough : rb.len < fuel) : Keeps input rb.len (unpackArray unpack count i entries rb) := by
  induction count generalizing i entries rb with
  | zero => exact .pure inside le_rfl
  | succ count ih =>
    refine (step rb inside enough).bind fun value rb' inside' le => ?_
    exact (ih _ _ inside' (by omega)).mono (by omega)

/-- A round of the loop reads at least the type byte of a key. -/
theorem unpackHash_keeps
    (step : ∀ rb : ReadBlock, rb.Inside input → rb.len < fuel →
      Keeps input (rb.len - 1) (unpack rb))
    (rounds : Nat) (entries : List (Tree × Tree)) {rb : ReadBlock} (inside : rb.Inside input)
    (enough : rb.len < fuel) (ends : rb.len < rounds) :
    Keeps input rb.len (unpackHash unpack rounds entries rb) := by
  induction rounds generalizing entries rb with
  | zero =>
    have := inside.len
    omega
  | succ rounds ih =>
    refine (step rb inside enough).bind fun key rb' inside' le => ?_
    dsimp only
    split_ifs
    · exact .pure inside' (by omega)
    · refine (step rb' inside' (by omega)).bind fun value rb'' inside'' le' => ?_
      dsimp only
      cases Tree.rawset entries key value with
      | error msg => exact .raise msg
      | ok entries' => exact (ih entries' inside'' (by omega) (by omega)).mono (by omega)

theorem unpackTable_keeps
    (step : ∀ rb : ReadBlock, rb.Inside input → rb.len < fuel →
      Keeps input (rb.len - 1) (unpack rb))
    {rb : ReadBlock} (inside : rb.Inside input) (enough : rb.len < fuel) (cookie : UInt8) :
    Keeps input rb.len (unpackTable unpack fuel rb cookie) := by
  refine (getArraySize_keeps inside cookie).bind fun size rb₁ inside₁ le₁ => ?_
  refine (unpackArray_keeps step _ 1 [] inside₁ (by omega)).bind fun entries rb₂ inside₂ le₂ => ?_
  refine (unpackHash_keeps step fuel entries inside₂ (by omega) (by omega)).bind
    fun entries' rb₃ inside₃ le₃ => ?_
  exact .pure inside₃ (by omega)

theorem pushValue_keeps (short : input.length < 2 ^ 31)
    (step : ∀ rb : ReadBlock, rb.Inside input → rb.len < fuel →
      Keeps input (rb.len - 1) (unpack rb))
    {rb : ReadBlock} (inside : rb.Inside input) (enough : rb.len < fuel) (type cookie : UInt8) :
    Keeps input rb.len (pushValue unpack fuel rb type cookie) := by
  have returned {α : Type} (f : α → Tree) {x : Run (α × ReadBlock)} (keeps : Keeps input rb.len x) :
      Keeps input rb.len (x >>= fun r => return (f r.1, r.2)) :=
    keeps.bind fun _ _ inside' le => .pure inside' le
  unfold pushValue
  split_ifs
  · exact .pure inside le_rfl
  · exact .pure inside le_rfl
  · exact returned Tree.number (getBits_keeps inside 322)
  · exact returned Tree.integer (getInteger_keeps inside cookie)
  · exact returned Tree.lightuserdata (getBits_keeps inside 332)
  · have byte : cookie.toNat < 2 ^ 8 := cookie.toNat_lt
    exact returned Tree.string (getBuffer_keeps inside short (by omega))
  · refine (getLength_sound inside cookie).bind ?_
    rintro ⟨n, rb'⟩ ⟨field, inside', le⟩
    have le : rb'.len ≤ rb.len := le
    refine (getBuffer_keeps inside' short field).bind fun s rb'' inside'' le' => ?_
    exact .pure inside'' (by omega)
  · exact unpackTable_keeps step inside enough cookie
  · exact .invalidStream rb 432

end

/-- The fuel is enough when it is more than what is left: each value has a type byte. -/
theorem unpackOne_keeps (short : input.length < 2 ^ 31) (fuel : Nat) {rb : ReadBlock}
    (inside : rb.Inside input) (enough : rb.len < fuel) :
    Keeps input (rb.len - 1) (unpackOne fuel rb) := by
  induction fuel generalizing rb with
  | zero =>
    have := inside.len
    omega
  | succ fuel ih =>
    refine (readByte_keeps inside 443).bind fun byte rb' inside' le => ?_
    have enough' : rb'.len < fuel := by omega
    exact (pushValue_keeps short (fun rb => ih) inside' enough' _ _).mono le

theorem unpackAll_sound (short : input.length < 2 ^ 31) (fuel : Nat) (rounds : Nat) {rb : ReadBlock}
    (inside : rb.Inside input) (enough : rb.len < fuel) (ends : rb.len < rounds) :
    Traced.Sound (Access.Inside input) Access.fatal (· ≠ .outOfFuel) (fun _ => True)
      (unpackAll fuel rounds rb) := by
  induction rounds generalizing rb with
  | zero =>
    have := inside.len
    omega
  | succ rounds ih =>
    have first : Traced.Sound (Access.Inside input) Access.fatal (· ≠ .outOfFuel)
        (fun r => ∀ bytes rb', r = some (bytes, rb') → rb'.Inside input ∧ rb'.len ≤ rb.len - 1)
        (.event ⟨rb, 1, none⟩ (.ok (rb.read 1)) : Run _) := by
      refine .event ⟨inside, fun _ => Int.one_nonneg, fun n some => by cases some⟩ ?_ ?_ ?_
      · intro f fatal
        cases fatal
      · intro r eq bytes rb' some
        cases eq
        rcases inside.readOrFail (by decide : (0 : Int) ≤ 1) 0 with
          ⟨-, failed⟩ | ⟨bytes', rb'', read, inside', len⟩
        · rw [ReadBlock.readOrFail, some] at failed
          cases failed
        · rw [ReadBlock.readOrFail, some] at read
          cases read
          exact ⟨inside', len.le⟩
      · intro f eq
        cases eq
    refine first.bind fun r h => ?_
    cases r with
    | none => exact .pure trivial
    | some r =>
      obtain ⟨inside', le⟩ := h r.1 r.2 rfl
      refine Traced.Sound.bind (pushValue_keeps short (fun rb inside enough =>
        unpackOne_keeps short fuel inside enough) inside' (by omega) _ _) fun r' h' => ?_
      refine (ih h'.1 ?_ ?_).bind fun ws _ => .pure trivial
      · have := h'.2
        omega
      · have := h'.2
        omega

/-- What is true of every run of `Unserialize` on an input that is shorter than 2^31 bytes. -/
theorem unserialize_sound {s : List UInt8} (short : s.length < 2 ^ 31) :
    Traced.Sound (Access.Inside s) Access.fatal (· ≠ .outOfFuel) (fun _ => True)
      (unserialize s) := by
  have len : (Int32.ofNat s.length).toInt = s.length := Int32.toInt_ofNat_of_lt short
  simp only [unserialize, len]
  split_ifs
  · exact .pure trivial
  · refine unpackAll_sound short _ _ ⟨rfl, le_rfl, ?_, ?_⟩ ?_ ?_
    all_goals dsimp only; omega

end Trace

/-- The fuel of `Unserialize` is enough. -/
theorem unserialize_ne_outOfFuel {s : List UInt8} (short : s.length < 2 ^ 31) :
    unserialize s ≠ .error .outOfFuel := by
  rw [← Trace.unserialize_outcome]
  exact fun eq => (Trace.unserialize_sound short).failed _ eq rfl

/-- The decoder never leaves the input `s`: the cursor and each slice that `rb_read` returns are
inside, and a length field that is larger than the remaining input is an invalid stream, reported
where the field ends. -/
structure StaysInside (s : List UInt8) : Prop where
  cursor : ∀ access ∈ (Trace.unserialize s).log, access.rb.Inside s
  slice : ∀ access ∈ (Trace.unserialize s).log, ∀ result, access.rb.read access.sz = some result →
    0 ≤ access.sz ∧ access.rb.ptr + access.sz ≤ s.length
  rejects : ∀ access ∈ (Trace.unserialize s).log, ∀ n, access.field = some n → access.rb.len < n →
    access.rb.read access.sz = none ∧ unserialize s = access.rb.invalidStream 342

/-- The length fields that the decoder comes to on the input `s`. -/
def FieldsFit (s : List UInt8) : Prop :=
  ∀ access ∈ (Trace.unserialize s).log, ∀ n, access.field = some n → n < 2 ^ 31
instance (s : List UInt8) : Decidable (FieldsFit s) :=
  decidable_of_iff (∀ access ∈ (Trace.unserialize s).log, access.field.all (· < 2 ^ 31) = true)
    (by simp [FieldsFit, Option.all_eq_true])

end Starnet.LuaSeri
