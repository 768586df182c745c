import Starnet.Lib.LittleEndian
import Mathlib.Data.List.Basic

/-! The formats `>iN` and `>sN` of Lua's `string.pack` and `string.unpack`: signed numbers and
strings after their length, the highest byte first. A result `none` stands for the error that these
functions raise. -/

namespace StringPack

/-- The low `k` bytes of `n`, the highest first. -/
def toBytes (k n : Nat) : List UInt8 := (LittleEndian.toBytes k n).reverse

/-- The number that the bytes spell, the highest first. -/
def ofBytes (bytes : List UInt8) : Nat := LittleEndian.ofBytes bytes.reverse

/-- `>iN`, for fewer bytes than a Lua integer has. -/
def packInt (k : Nat) (n : Int) : Option (List UInt8) :=
  if -2 ^ (8 * k - 1) ≤ n ∧ n < 2 ^ (8 * k - 1) then some (toBytes k (n % 256 ^ k).toNat) else none

def unpackInt (k : Nat) (buff : List UInt8) : Option (Int × List UInt8) :=
  if buff.length < k then none
  else some (Int.bmod (ofBytes (buff.take k)) (256 ^ k), buff.drop k)

/-- `>sN`. -/
def packString (k : Nat) (s : List UInt8) : Option (List UInt8) :=
  if s.length < 256 ^ k then some (toBytes k s.length ++ s) else none

def unpackString (k : Nat) (buff : List UInt8) : Option (List UInt8 × List UInt8) :=
  if buff.length < k then none
  else
    let length := ofBytes (buff.take k)
    let rest := buff.drop k
    if rest.length < length then none else some (rest.take length, rest.drop length)

/-! ### What is packed is unpacked -/

variable {k : Nat}

theorem length_toBytes (n : Nat) : (toBytes k n).length = k := by
  rw [toBytes, List.length_reverse, LittleEndian.length_toBytes]

theorem le_length (n : Nat) (rest : List UInt8) : k ≤ (toBytes k n ++ rest).length := by
  rw [List.length_append, length_toBytes]
  omega

theorem drop_toBytes (n : Nat) (rest : List UInt8) : (toBytes k n ++ rest).drop k = rest :=
  List.drop_left' (length_toBytes n)

theorem ofBytes_take_toBytes {n : Nat} (h : n < 256 ^ k) (rest : List UInt8) :
    ofBytes ((toBytes k n ++ rest).take k) = n := by
  rw [List.take_left' (length_toBytes n), ofBytes, toBytes, List.reverse_reverse,
    LittleEndian.ofBytes_toBytes h]

/-- The signed number with the bytes of `n` is `n`. -/
theorem bmod_emod {n : Int} (pos : 0 < k) (low : -2 ^ (8 * k - 1) ≤ n) (high : n < 2 ^ (8 * k - 1)) :
    Int.bmod (n % 256 ^ k) (256 ^ k) = n := by
  have width : (256 : Nat) ^ k = 2 * 2 ^ (8 * k - 1) := by
    rw [show (256 : Nat) = 2 ^ 8 from rfl, ← Nat.pow_mul, ← Nat.pow_succ']
    congr 1
    omega
  have same : Int.bmod (n % 256 ^ k) (256 ^ k) = Int.bmod n (256 ^ k) := by
    exact_mod_cast Int.emod_bmod n (256 ^ k)
  rw [same]
  refine Int.bmod_eq_of_le_mul_two ?_ ?_
  all_goals
    rw [width]
    push_cast
    omega

theorem unpackInt_packInt {n : Int} {packed : List UInt8} (pos : 0 < k)
    (h : packInt k n = some packed) (rest : List UInt8) :
    unpackInt k (packed ++ rest) = some (n, rest) := by
  unfold packInt at h
  split at h
  · next range =>
    cases h
    have positive : (0 : Int) < 256 ^ k := Int.pow_pos (by decide)
    have nonneg : 0 ≤ n % 256 ^ k := Int.emod_nonneg n (Int.ne_of_gt positive)
    have below : n % 256 ^ k < ((256 ^ k : Nat) : Int) := by
      exact_mod_cast Int.emod_lt_of_pos n positive
    have small : (n % 256 ^ k).toNat < 256 ^ k := (Int.toNat_lt nonneg).mpr below
    rw [unpackInt, if_neg (Nat.not_lt.mpr (le_length _ rest)), ofBytes_take_toBytes small,
      drop_toBytes, Int.toNat_of_nonneg nonneg, bmod_emod pos range.1 range.2]
  · cases h

theorem unpackString_packString {s packed : List UInt8} (h : packString k s = some packed)
    (rest : List UInt8) : unpackString k (packed ++ rest) = some (s, rest) := by
  unfold packString at h
  split at h
  · next short =>
    cases h
    rw [List.append_assoc, unpackString, if_neg (Nat.not_lt.mpr (le_length _ _))]
    simp only [ofBytes_take_toBytes short, drop_toBytes]
    rw [if_neg (by rw [List.length_append]; omega), List.take_left, List.drop_left]
  · cases h

end StringPack
