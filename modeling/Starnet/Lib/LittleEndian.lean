import Mathlib.Algebra.Order.Ring.Nat

/-! Numbers as bytes, the lowest byte first. -/

namespace LittleEndian

/-- The low `k` bytes of `n`. -/
def toBytes : Nat → Nat → List UInt8
  | 0, _ => []
  | k + 1, n => UInt8.ofNat n :: toBytes k (n / 256)

/-- The number that the bytes spell. -/
def ofBytes : List UInt8 → Nat
  | [] => 0
  | byte :: bytes => byte.toNat + 256 * ofBytes bytes

@[simp] theorem length_toBytes (k n : Nat) : (toBytes k n).length = k := by
  induction k generalizing n with
  | zero => rfl
  | succ k ih => rw [toBytes, List.length_cons, ih]

/-- The bytes of a number spell the number modulo their width. -/
theorem ofBytes_toBytes_mod (k n : Nat) : ofBytes (toBytes k n) = n % 256 ^ k := by
  induction k generalizing n with
  | zero => rw [toBytes, ofBytes, Nat.pow_zero, Nat.mod_one]
  | succ k ih =>
    have byte : (UInt8.ofNat n).toNat = n % 256 := UInt8.toNat_ofNat'
    rw [toBytes, ofBytes, ih, byte, Nat.pow_succ, Nat.mul_comm (256 ^ k), Nat.mod_mul]

theorem ofBytes_toBytes {k n : Nat} (h : n < 256 ^ k) : ofBytes (toBytes k n) = n := by
  rw [ofBytes_toBytes_mod, Nat.mod_eq_of_lt h]

theorem ofBytes_lt (bytes : List UInt8) : ofBytes bytes < 256 ^ bytes.length := by
  induction bytes with
  | nil => exact Nat.one_pos
  | cons byte bytes ih =>
    have low : byte.toNat < 256 := byte.toNat_lt
    rw [ofBytes, List.length_cons, Nat.pow_succ]
    omega

/-- At most `k` bytes spell a number of `k` bytes. -/
theorem ofBytes_lt_pow {bytes : List UInt8} {k : Nat} (short : bytes.length ≤ k) :
    ofBytes bytes < 256 ^ k :=
  lt_of_lt_of_le (ofBytes_lt bytes) (Nat.pow_le_pow_right (by decide) short)

end LittleEndian
