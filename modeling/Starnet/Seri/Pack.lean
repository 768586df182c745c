import Starnet.Lib.LittleEndian
import Starnet.Seri.Value

/-! The encoder of `lua-seri.cpp`. Numbers are copied from memory, lowest byte first. The bytes
that a call appends to the buffer are its result. -/

namespace Starnet.LuaSeri

open LittleEndian

/-! ### Types -/

def typeNil : UInt8 := 0
def typeBoolean : UInt8 := 1
def typeNumber : UInt8 := 2
def typeNumberZero : UInt8 := 0
def typeNumberByte : UInt8 := 1
def typeNumberWord : UInt8 := 2
def typeNumberDword : UInt8 := 4
def typeNumberQword : UInt8 := 6
def typeNumberReal : UInt8 := 8
def typeUserdata : UInt8 := 3
def typeShortString : UInt8 := 4
def typeLongString : UInt8 := 5
def typeTable : UInt8 := 6

/-- `MAX_COOKIE`. -/
def maxCookie : Nat := 32

/-- `MAX_DEPTH`. -/
def maxDepth : Nat := 32

/-- `COMBINE_TYPE` as a `uint8_t`, for the low byte of `v`. -/
def combineType (t v : UInt8) : UInt8 := t ||| v <<< 3

/-! ### Scalars -/

def wbNil : List UInt8 := [typeNil]

def wbBoolean (b : Bool) : List UInt8 := [combineType typeBoolean (if b then 1 else 0)]

def wbInteger (v : Int64) : List UInt8 :=
  if v = 0 then [combineType typeNumber typeNumberZero]
  else if v ≠ v.toInt32.toInt64 then
    combineType typeNumber typeNumberQword :: toBytes 8 v.toUInt64.toNat
  else if v < 0 then combineType typeNumber typeNumberDword :: toBytes 4 v.toUInt64.toUInt32.toNat
  else if v < 0x100 then combineType typeNumber typeNumberByte :: toBytes 1 v.toUInt64.toNat
  else if v < 0x10000 then combineType typeNumber typeNumberWord :: toBytes 2 v.toUInt64.toNat
  else combineType typeNumber typeNumberDword :: toBytes 4 v.toUInt64.toUInt32.toNat

def wbReal (bits : UInt64) : List UInt8 :=
  combineType typeNumber typeNumberReal :: toBytes 8 bits.toNat

def wbPointer (p : UInt64) : List UInt8 := typeUserdata :: toBytes 8 p.toNat

/-- `wb_string`; `len` is the length as an `int`. -/
def wbString (str : List UInt8) (len : Int32) : List UInt8 :=
  if len.toInt < maxCookie then
    combineType typeShortString (UInt8.ofInt len.toInt) :: str.take len.toNatClampNeg
  else if len < 0x10000 then
    combineType typeLongString 2 :: toBytes 2 len.toNatClampNeg ++ str.take len.toNatClampNeg
  else combineType typeLongString 4 :: toBytes 4 len.toNatClampNeg ++ str.take len.toNatClampNeg

/-! ### Tables -/

/-- The size of the array part: `lua_rawlen` as an `int`. -/
def arraySize (t : Table) : Int32 := Int32.ofNat t.rawlen

/-- The header that `wb_table_array` writes. -/
def wbTableHeader (size : Int32) : List UInt8 :=
  if size.toInt ≥ maxCookie - 1 then
    combineType typeTable (UInt8.ofNat (maxCookie - 1)) :: wbInteger size.toInt64
  else [combineType typeTable (UInt8.ofInt size.toInt)]

/-- The elements that `wb_table_array` packs. -/
def arrayValues (t : Table) : List Value :=
  (List.range (arraySize t).toNatClampNeg).map fun i =>
    rawget t.entries (.integer (Int64.ofNat (i + 1)))

/-- The key is in the part that `wb_table_array` packs. -/
def inArray (size : Int32) : Value → Bool
  | .integer x => 0 < x && x ≤ size.toInt64
  | _ => false

/-- The fields that `wb_table_hash` packs. -/
def hashFields (t : Table) : List (Value × Value) :=
  t.entries.filter fun entry => !inArray (arraySize t) entry.1

/-- `wb_table` on a table without a `__pairs` metamethod, where `pack` is `pack_one` at the depth of
the fields. -/
def wbTable (pack : Value → Except String (List UInt8)) (t : Table) :
    Except String (List UInt8) := do
  let array ← (arrayValues t).mapM pack
  let hash ← (hashFields t).mapM fun entry => do
    let key ← pack entry.1
    let value ← pack entry.2
    return key ++ value
  return wbTableHeader (arraySize t) ++ array.flatten ++ hash.flatten ++ wbNil

/-- `pack_one`, where `levels` is `MAX_DEPTH + 1 - depth`. -/
def packOne (h : Heap) : (levels : Nat) → Value → Except String (List UInt8)
  | 0, _ => .error "serialize can't pack too depth table"
  | levels + 1, v =>
    match v with
    | .nil => .ok wbNil
    | .integer x => .ok (wbInteger x)
    | .number bits => .ok (wbReal bits)
    | .boolean b => .ok (wbBoolean b)
    | .string s => .ok (wbString s (Int32.ofNat s.length))
    | .lightuserdata p => .ok (wbPointer p)
    | .table ref => wbTable (packOne h levels) (h ref)
    | .object type _ => .error s!"Unsupport type {type.typename} to serialize"

/-- `LuaSeri::Serialize` on the arguments `vs`. -/
def serialize (h : Heap) (vs : List Value) : Except String (List UInt8) :=
  return (← vs.mapM (packOne h (maxDepth + 1))).flatten

end Starnet.LuaSeri
