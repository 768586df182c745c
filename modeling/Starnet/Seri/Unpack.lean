import Starnet.Seri.Pack

/-! The decoder of `lua-seri.cpp`. The recursion and the loops that end by what they read have fuel,
and running out of it is an outcome of its own. -/

namespace Starnet.LuaSeri

open LittleEndian

/-- A Lua error, or the end of the fuel. -/
inductive Failure
  | raised (msg : String)
  | outOfFuel
  deriving DecidableEq, Repr

/-- `read_block`. -/
structure ReadBlock where
  buffer : List UInt8
  len : Int
  ptr : Int
  deriving DecidableEq, Repr

namespace ReadBlock

/-- `rb_read`: the bytes from the returned pointer on. -/
def read (rb : ReadBlock) (sz : Int) : Option (List UInt8 × ReadBlock) :=
  if rb.len < sz then none
  else
    some ((rb.buffer.drop rb.ptr.toNat).take sz.toNat,
      { rb with ptr := rb.ptr + sz, len := rb.len - sz })

/-- `invalid_stream`. -/
def invalidStream {α : Type} (rb : ReadBlock) (line : Nat) : Except Failure α :=
  .error (.raised s!"Invalid serialize stream {rb.len} (line:{line})")

/-- `rb_read` of `sz` bytes, with `invalid_stream` when they are missing. -/
def readOrFail (rb : ReadBlock) (sz : Int) (line : Nat) :
    Except Failure (List UInt8 × ReadBlock) :=
  match rb.read sz with
  | none => rb.invalidStream line
  | some result => .ok result

/-- `rb_read` of a type byte. -/
def readByte (rb : ReadBlock) (line : Nat) : Except Failure (UInt8 × ReadBlock) := do
  let (bytes, rb) ← rb.readOrFail 1 line
  return (bytes.headD 0, rb)

end ReadBlock

/-- The type in the low bits of a type byte. -/
def typeOf (byte : UInt8) : UInt8 := byte &&& 7

/-- The cookie in the high bits of a type byte. -/
def cookieOf (byte : UInt8) : UInt8 := byte >>> 3

/-- A `lua_Integer` read from an `int32_t`. -/
def signed32 (n : Nat) : Int64 := (Int32.ofNat n).toInt64

/-- `get_integer`. -/
def getInteger (rb : ReadBlock) (cookie : UInt8) : Except Failure (Int64 × ReadBlock) :=
  if cookie = typeNumberZero then .ok (0, rb)
  else if cookie = typeNumberByte then do
    let (bytes, rb) ← rb.readOrFail 1 283
    return (Int64.ofNat (ofBytes bytes), rb)
  else if cookie = typeNumberWord then do
    let (bytes, rb) ← rb.readOrFail 2 291
    return (Int64.ofNat (ofBytes bytes), rb)
  else if cookie = typeNumberDword then do
    let (bytes, rb) ← rb.readOrFail 4 299
    return (signed32 (ofBytes bytes), rb)
  else if cookie = typeNumberQword then do
    let (bytes, rb) ← rb.readOrFail 8 307
    return (Int64.ofNat (ofBytes bytes), rb)
  else rb.invalidStream 312

/-- Eight bytes as they are. -/
def getBits (line : Nat) (rb : ReadBlock) : Except Failure (UInt64 × ReadBlock) := do
  let (bytes, rb) ← rb.readOrFail 8 line
  return (UInt64.ofNat (ofBytes bytes), rb)

/-- `get_real`. -/
def getReal : ReadBlock → Except Failure (UInt64 × ReadBlock) := getBits 322

/-- `get_pointer`. -/
def getPointer : ReadBlock → Except Failure (UInt64 × ReadBlock) := getBits 332

/-- `get_buffer`. `lua_pushlstring` takes a negative length for a `size_t` that is too big. -/
def getBuffer (rb : ReadBlock) (len : Int) : Except Failure (List UInt8 × ReadBlock) := do
  let (bytes, rb) ← rb.readOrFail len 342
  if len < 0 then throw (.raised "memory allocation error: block too big")
  return (bytes, rb)

/-- The length of a long string, as the `int` argument of `get_buffer`. -/
def getLength (rb : ReadBlock) (cookie : UInt8) : Except Failure (Int × ReadBlock) :=
  if cookie = 2 then do
    let (bytes, rb) ← rb.readOrFail 2 408
    return (ofBytes bytes, rb)
  else if cookie = 4 then do
    let (bytes, rb) ← rb.readOrFail 4 419
    return ((Int32.ofNat (ofBytes bytes)).toInt, rb)
  else rb.invalidStream 415

section

variable (unpack : ReadBlock → Except Failure (Tree × ReadBlock))

/-- The loop of `unpack_table` over `count` elements from index `i` on. -/
def unpackArray : (count i : Nat) → List (Tree × Tree) → ReadBlock →
    Except Failure (List (Tree × Tree) × ReadBlock)
  | 0, _, entries, rb => .ok (entries, rb)
  | count + 1, i, entries, rb => do
    let (value, rb) ← unpack rb
    unpackArray count (i + 1) (Tree.assign entries (.integer (Int64.ofNat i)) value) rb

/-- The loop of `unpack_table` up to the first key that is nil. -/
def unpackHash : (fuel : Nat) → List (Tree × Tree) → ReadBlock →
    Except Failure (List (Tree × Tree) × ReadBlock)
  | 0, _, _ => .error .outOfFuel
  | fuel + 1, entries, rb => do
    let (key, rb) ← unpack rb
    if key.isNil then return (entries, rb)
    let (value, rb) ← unpack rb
    match Tree.rawset entries key value with
    | .error msg => throw (.raised msg)
    | .ok entries => unpackHash fuel entries rb

/-- The array size of `unpack_table`, as an `int`. -/
def getArraySize (rb : ReadBlock) (cookie : UInt8) : Except Failure (Int32 × ReadBlock) :=
  if cookie.toNat = maxCookie - 1 then do
    let (byte, rb) ← rb.readByte 355
    if typeOf byte ≠ typeNumber ∨ cookieOf byte = typeNumberReal then rb.invalidStream 360
    else do
      let (size, rb) ← getInteger rb (cookieOf byte)
      return (size.toInt32, rb)
  else .ok (Int32.ofNat cookie.toNat, rb)

/-- `unpack_table`, where `unpack` is `unpack_one`. -/
def unpackTable (fuel : Nat) (rb : ReadBlock) (cookie : UInt8) :
    Except Failure (Tree × ReadBlock) := do
  let (size, rb) ← getArraySize rb cookie
  let (entries, rb) ← unpackArray unpack size.toNatClampNeg 1 [] rb
  let (entries, rb) ← unpackHash unpack fuel entries rb
  return (.table entries, rb)

/-- `push_value`, where `unpack` is `unpack_one`. -/
def pushValue (fuel : Nat) (rb : ReadBlock) (type cookie : UInt8) :
    Except Failure (Tree × ReadBlock) :=
  if type = typeNil then .ok (.nil, rb)
  else if type = typeBoolean then .ok (.boolean (cookie ≠ 0), rb)
  else if type = typeNumber then
    if cookie = typeNumberReal then do
      let (bits, rb) ← getReal rb
      return (.number bits, rb)
    else do
      let (x, rb) ← getInteger rb cookie
      return (.integer x, rb)
  else if type = typeUserdata then do
    let (p, rb) ← getPointer rb
    return (.lightuserdata p, rb)
  else if type = typeShortString then do
    let (s, rb) ← getBuffer rb cookie.toNat
    return (.string s, rb)
  else if type = typeLongString then do
    let (len, rb) ← getLength rb cookie
    let (s, rb) ← getBuffer rb len
    return (.string s, rb)
  else if type = typeTable then unpackTable unpack fuel rb cookie
  else rb.invalidStream 432

end

/-- `unpack_one`. -/
def unpackOne : (fuel : Nat) → ReadBlock → Except Failure (Tree × ReadBlock)
  | 0, _ => .error .outOfFuel
  | fuel + 1, rb => do
    let (byte, rb) ← rb.readByte 443
    pushValue (fun rb => unpackOne fuel rb) fuel rb (typeOf byte) (cookieOf byte)

/-- The loop of `unpack_buffer`, which ends when no byte is left. -/
def unpackAll (fuel : Nat) : (rounds : Nat) → ReadBlock → Except Failure (List Tree)
  | 0, _ => .error .outOfFuel
  | rounds + 1, rb =>
    match rb.read 1 with
    | none => .ok []
    | some (bytes, rb) => do
      let byte := bytes.headD 0
      let (value, rb) ← pushValue (unpackOne fuel) fuel rb (typeOf byte) (cookieOf byte)
      return value :: (← unpackAll fuel rounds rb)

/-- `LuaSeri::Unserialize` on a string; `unpack_buffer` gets its length as an `int`. -/
def unserialize (s : List UInt8) : Except Failure (List Tree) :=
  let len := (Int32.ofNat s.length).toInt
  if len = 0 then .ok []
  else unpackAll (s.length + 1) (s.length + 1) ⟨s, len, 0⟩

end Starnet.LuaSeri
