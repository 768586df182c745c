import Mathlib.Algebra.Order.Ring.Nat

/-! Integers as decimal texts, the highest digit first. -/

namespace Decimal

/-- The digits of `n` in ASCII. -/
def digits (n : Nat) : List UInt8 := (Nat.toDigits 10 n).map Char.toUInt8

/-- A minus sign stands before a negative number, and there is no other sign. -/
def toText : Int → List UInt8
  | .ofNat n => digits n
  | .negSucc n => 45 :: digits (n + 1)

/-- The byte is one of the ten digits. -/
def IsDigit (byte : UInt8) : Prop := 48 ≤ byte ∧ byte ≤ 57

instance (byte : UInt8) : Decidable (IsDigit byte) := inferInstanceAs (Decidable (_ ∧ _))

/-- The number that the digits after a prefix of value `n` spell. -/
def ofDigits (n : Nat) : List UInt8 → Option Nat
  | [] => some n
  | byte :: text => if IsDigit byte then ofDigits (10 * n + (byte.toNat - 48)) text else none

/-- The integer that a text spells, which may have zeros in front. -/
def ofText : List UInt8 → Option Int
  | [] => none
  | byte :: text =>
    if byte = 45 ∧ text ≠ [] then (ofDigits 0 text).map fun n => -(n : Int)
    else (ofDigits 0 (byte :: text)).map fun n => (n : Int)

theorem isDigit_toUInt8 {c : Char} (digit : c.isDigit) :
    IsDigit c.toUInt8 ∧ c.toUInt8.toNat = c.toNat := by
  have bounds : 48 ≤ c.toNat ∧ c.toNat ≤ 57 := by
    simpa [Char.isDigit, UInt32.le_iff_toNat_le] using digit
  have value : c.toUInt8.toNat = c.toNat := by
    change c.toNat % 256 = c.toNat
    omega
  refine ⟨⟨?_, ?_⟩, value⟩ <;> rw [UInt8.le_iff_toNat_le, value]
  · exact bounds.1
  · exact bounds.2

/-- Bytes read digits as characters do. -/
theorem ofDigits_map {cs : List Char} (digits : ∀ c ∈ cs, c.isDigit) (n : Nat) :
    ofDigits n (cs.map Char.toUInt8) = some (Nat.ofDigitChars 10 cs n) := by
  induction cs generalizing n with
  | nil => rfl
  | cons c cs ih =>
    obtain ⟨digit, value⟩ := isDigit_toUInt8 (digits c List.mem_cons_self)
    rw [List.map_cons, ofDigits, if_pos digit, value,
      ih fun c' mem => digits c' (List.mem_cons_of_mem c mem), Nat.ofDigitChars_cons]
    rfl

theorem isDigit_of_mem_digits {n : Nat} {byte : UInt8} (mem : byte ∈ digits n) : IsDigit byte := by
  obtain ⟨c, digit, rfl⟩ := List.mem_map.mp mem
  exact (isDigit_toUInt8 (Nat.isDigit_of_mem_toDigits (by decide) (by decide) digit)).1

theorem digits_ne_nil (n : Nat) : digits n ≠ [] := by
  rw [digits, Ne, List.map_eq_nil_iff]
  exact Nat.toDigits_ne_nil

theorem ofDigits_digits (n : Nat) : ofDigits 0 (digits n) = some n := by
  rw [digits, ofDigits_map fun c => Nat.isDigit_of_mem_toDigits (by decide) (by decide),
    Nat.ofDigitChars_ten_toDigits]

/-- The text of an integer spells that integer. -/
theorem ofText_toText (x : Int) : ofText (toText x) = some x := by
  cases x with
  | ofNat n =>
    cases text : digits n with
    | nil => exact absurd text (digits_ne_nil n)
    | cons byte rest =>
      have digit : IsDigit byte := isDigit_of_mem_digits (n := n) (text ▸ List.mem_cons_self)
      have sign : ¬(byte = 45 ∧ rest ≠ []) := fun h => absurd (h.1 ▸ digit) (by decide)
      rw [toText, text, ofText, if_neg sign, ← text, ofDigits_digits]
      rfl
  | negSucc n =>
    rw [toText, ofText, if_pos ⟨rfl, digits_ne_nil _⟩, ofDigits_digits]
    rfl

/-- A text can be handed over as a C string. -/
theorem zero_notMem_toText (x : Int) : 0 ∉ toText x := by
  have nonzero (n : Nat) : 0 ∉ digits n := fun mem =>
    absurd (isDigit_of_mem_digits mem) (by decide)
  cases x with
  | ofNat n => exact nonzero n
  | negSucc n => exact List.not_mem_cons_of_ne_of_not_mem (by decide) (nonzero _)

end Decimal
