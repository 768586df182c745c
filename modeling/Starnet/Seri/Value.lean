import Mathlib.Algebra.Order.Ring.Nat
import Mathlib.Data.List.Nodup

/-! The Lua values that `lua-seri.cpp` reads from and pushes on the stack. Tables that are read are
shared objects in a heap; tables that are decoded are new and form trees. Floats are their bits. -/

namespace Starnet.LuaSeri

/-- The types that `pack_one` does not support. -/
inductive Unsupported
  | userdata
  | function
  | thread
  deriving DecidableEq, Repr

/-- `lua_typename`. -/
def Unsupported.typename : Unsupported → String
  | userdata => "userdata"
  | function => "function"
  | thread => "thread"

/-- A value on the stack. An object is given by its reference. -/
inductive Value
  | nil
  | boolean (b : Bool)
  | integer (x : Int64)
  | number (bits : UInt64)
  | string (s : List UInt8)
  | lightuserdata (p : UInt64)
  | table (ref : Nat)
  | object (type : Unsupported) (ref : Nat)
  deriving DecidableEq, Repr

/-! ### Floats -/

/-- The exponent field of a double. -/
def exponent (bits : UInt64) : Nat := bits.toNat / 2 ^ 52 % 2 ^ 11

/-- The fraction field of a double. -/
def fraction (bits : UInt64) : Nat := bits.toNat % 2 ^ 52

def isNaN (bits : UInt64) : Bool := exponent bits = 2047 && fraction bits ≠ 0

/-- The absolute value of a double whose value is an integer. -/
def integralAbs (bits : UInt64) : Option Nat :=
  let e := exponent bits
  if e = 2047 then none
  else if e = 0 then if fraction bits = 0 then some 0 else none
  else
    let m := 2 ^ 52 + fraction bits
    if e ≥ 1075 then some (m * 2 ^ (e - 1075))
    else if m % 2 ^ (1075 - e) = 0 then some (m / 2 ^ (1075 - e)) else none

/-- `luaV_tointeger` on a float: its value as a `lua_Integer`, if it has one. -/
def toInteger (bits : UInt64) : Option Int64 :=
  match integralAbs bits with
  | none => none
  | some n =>
    if bits.toNat < 2 ^ 63 then if n < 2 ^ 63 then some (Int64.ofNat n) else none
    else if n ≤ 2 ^ 63 then some (-Int64.ofNat n) else none

/-! ### Tables -/

/-- The values that occur as keys: no nil, no NaN, and no float with an integer value. -/
def Value.isKey : Value → Bool
  | nil => false
  | number bits => !isNaN bits && (toInteger bits).isNone
  | _ => true

/-- `lua_rawgeti` and `lua_rawget`. -/
def rawget (entries : List (Value × Value)) (key : Value) : Value :=
  (entries.lookup key).getD .nil

/-- A table without a `__pairs` metamethod. `entries` are its fields in the order of `lua_next`, and
`rawlen` is any border, as `lua_rawlen` gives one. -/
structure Table where
  entries : List (Value × Value)
  rawlen : Nat
  distinct : (entries.map Prod.fst).Nodup
  keys : ∀ entry ∈ entries, entry.1.isKey = true
  values : ∀ entry ∈ entries, entry.2 ≠ .nil
  fits : rawlen < 2 ^ 63
  present : rawlen = 0 ∨ rawget entries (.integer (Int64.ofNat rawlen)) ≠ .nil
  absent : rawlen + 1 < 2 ^ 63 → rawget entries (.integer (Int64.ofNat (rawlen + 1))) = .nil

/-- The tables by their references. -/
abbrev Heap := Nat → Table

/-- A decoded value. -/
inductive Tree
  | nil
  | boolean (b : Bool)
  | integer (x : Int64)
  | number (bits : UInt64)
  | string (s : List UInt8)
  | lightuserdata (p : UInt64)
  | table (entries : List (Tree × Tree))
  deriving Repr

namespace Tree

/-- Raw equality. A decoded table is a new object, equal to no other one. -/
def rawequal : Tree → Tree → Bool
  | nil, nil => true
  | boolean b, boolean b' => b = b'
  | integer x, integer x' => x = x'
  | number bits, number bits' => bits = bits'
  | string s, string s' => s = s'
  | lightuserdata p, lightuserdata p' => p = p'
  | _, _ => false

def isNil : Tree → Bool
  | nil => true
  | _ => false

/-- The fields after `t[key] = value` for a key that is not a float with an integer value. -/
def assign (entries : List (Tree × Tree)) (key value : Tree) : List (Tree × Tree) :=
  let others := entries.filter fun entry => !entry.1.rawequal key
  if value.isNil then others else others ++ [(key, value)]

/-- `lua_rawset` on the fields of a new table. -/
def rawset (entries : List (Tree × Tree)) (key value : Tree) :
    Except String (List (Tree × Tree)) :=
  match key with
  | nil => .error "table index is nil"
  | number bits =>
    match toInteger bits with
    | some x => .ok (assign entries (integer x) value)
    | none => if isNaN bits then .error "table index is NaN" else .ok (assign entries key value)
  | _ => .ok (assign entries key value)

end Tree

/-! ### Deep equality -/

mutual

/-- A decoded value is deeply equal to a value: integers and floats are kept apart, and tables have
the same fields, up to their order. -/
inductive DeepEq (h : Heap) : Value → Tree → Prop
  | nil : DeepEq h .nil .nil
  | boolean (b : Bool) : DeepEq h (.boolean b) (.boolean b)
  | integer (x : Int64) : DeepEq h (.integer x) (.integer x)
  | number (bits : UInt64) : DeepEq h (.number bits) (.number bits)
  | string (s : List UInt8) : DeepEq h (.string s) (.string s)
  | lightuserdata (p : UInt64) : DeepEq h (.lightuserdata p) (.lightuserdata p)
  | table {ref : Nat} {fields : List (Value × Value)} {entries : List (Tree × Tree)}
      (perm : (h ref).entries.Perm fields) (same : DeepEqFields h fields entries) :
      DeepEq h (.table ref) (.table entries)

/-- The fields of two lists are deeply equal, one by one. -/
inductive DeepEqFields (h : Heap) : List (Value × Value) → List (Tree × Tree) → Prop
  | nil : DeepEqFields h [] []
  | cons {key value : Value} {key' value' : Tree} {fields : List (Value × Value)}
      {entries : List (Tree × Tree)} (sameKey : DeepEq h key key')
      (sameValue : DeepEq h value value') (others : DeepEqFields h fields entries) :
      DeepEqFields h ((key, value) :: fields) ((key', value') :: entries)

end

end Starnet.LuaSeri
