import Starnet.Lib.StringPack
import Starnet.Seri.Follow
import Starnet.Seri.RoundTrip
import Starnet.Seri.Trace

/-! The form of `PackString` and `UnpackString`, with the length before the bytes. -/

namespace Starnet.LuaSeri

open Lib

/-- `unpack_buffer`, with the length as an `int`. -/
def unpackBuffer (buffer : List UInt8) (len : Int32) : Except Failure (List Tree) :=
  if len = 0 then .ok []
  else unpackAll (len.toNatClampNeg + 1) (len.toNatClampNeg + 1) ⟨buffer, len.toInt, 0⟩

/-- `LuaSeri::PackString` on the arguments `vs`. -/
def packString (h : Heap) (vs : List Value) : Except String (List UInt8) := do
  let out ← serialize h vs
  let len := UInt32.ofNat out.length
  let head := [(len >>> 24).toUInt8, (len >>> 16).toUInt8, (len >>> 8).toUInt8, len.toUInt8]
  return head ++ out

/-- `LuaSeri::UnpackString` on a string; `4 + len` is a `uint32_t`. -/
def unpackString : List UInt8 → Except Failure (List Tree)
  | b0 :: b1 :: b2 :: b3 :: rest =>
    let len := b0.toUInt32 <<< 24 ||| b1.toUInt32 <<< 16 ||| b2.toUInt32 <<< 8 ||| b3.toUInt32
    if rest.length + 4 < (4 + len).toNat then .error (.raised "Invalid serialize stream")
    else unpackBuffer rest len.toInt32
  | _ => .error (.raised "Invalid serialize stream")

/-! ### The length -/

/-- Bytes that are shifted to disjoint places are added. -/
theorem or_toNat (b0 b1 b2 b3 : UInt8) :
    (b0.toUInt32 <<< 24 ||| b1.toUInt32 <<< 16 ||| b2.toUInt32 <<< 8 ||| b3.toUInt32).toNat =
      StringPack.ofBytes [b0, b1, b2, b3] := by
  have h0 : b0.toNat < 2 ^ 8 := b0.toNat_lt
  have h1 : b1.toNat < 2 ^ 8 := b1.toNat_lt
  have h2 : b2.toNat < 2 ^ 8 := b2.toNat_lt
  have h3 : b3.toNat < 2 ^ 8 := b3.toNat_lt
  have shift {b : UInt8} {k : UInt32} {m : Nat} (small : b.toNat < 2 ^ 8) (le : m ≤ 24)
      (amount : k.toNat % 32 = m) : (b.toUInt32 <<< k).toNat = 2 ^ m * b.toNat := by
    have bound : 2 ^ m ≤ 2 ^ 24 := Nat.pow_le_pow_right (by decide) le
    rw [UInt32.toNat_shiftLeft, UInt8.toNat_toUInt32, amount, Nat.shiftLeft_eq, Nat.mul_comm,
      Nat.mod_eq_of_lt]
    calc 2 ^ m * b.toNat ≤ 2 ^ 24 * b.toNat := Nat.mul_le_mul_right _ bound
      _ < 2 ^ 32 := by omega
  rw [UInt32.toNat_or, UInt32.toNat_or, UInt32.toNat_or, shift h0 le_rfl rfl,
    shift h1 (by decide : 16 ≤ 24) rfl, shift h2 (by decide : 8 ≤ 24) rfl, UInt8.toNat_toUInt32]
  calc 2 ^ 24 * b0.toNat ||| 2 ^ 16 * b1.toNat ||| 2 ^ 8 * b2.toNat ||| b3.toNat
    _ = 2 ^ 16 * (2 ^ 8 * b0.toNat + b1.toNat) ||| 2 ^ 8 * b2.toNat ||| b3.toNat := by
      rw [← Nat.two_pow_add_eq_or_of_lt (by omega)]
      congr 2
      omega
    _ = 2 ^ 8 * (2 ^ 16 * b0.toNat + 2 ^ 8 * b1.toNat + b2.toNat) ||| b3.toNat := by
      rw [← Nat.two_pow_add_eq_or_of_lt (by omega)]
      congr 1
      omega
    _ = StringPack.ofBytes [b0, b1, b2, b3] := by
      rw [← Nat.two_pow_add_eq_or_of_lt h3]
      simp only [StringPack.ofBytes, List.reverse_cons, List.reverse_nil, List.nil_append,
        List.cons_append, LittleEndian.ofBytes]
      omega

/-- The head of a packed string spells the length of the rest. -/
theorem head_toBytes (len : UInt32) :
    [(len >>> 24).toUInt8, (len >>> 16).toUInt8, (len >>> 8).toUInt8, len.toUInt8] =
      StringPack.toBytes 4 len.toNat := by
  have byte {k : UInt32} {m : Nat} (amount : k.toNat % 32 = m) :
      (len >>> k).toUInt8 = UInt8.ofNat (len.toNat / 2 ^ m) := by
    apply UInt8.toNat_inj.mp
    rw [UInt32.toNat_toUInt8, UInt32.toNat_shiftRight, amount, Nat.shiftRight_eq_div_pow,
      UInt8.toNat_ofNat']
  have last : len.toUInt8 = UInt8.ofNat len.toNat := by
    apply UInt8.toNat_inj.mp
    rw [UInt32.toNat_toUInt8, UInt8.toNat_ofNat']
  rw [byte (m := 24) rfl, byte (m := 16) rfl, byte (m := 8) rfl, last]
  simp only [StringPack.toBytes, LittleEndian.toBytes, List.reverse_cons, List.reverse_nil,
    List.nil_append, List.cons_append, Nat.div_div_eq_div_mul]
  rfl

/-! ### The bytes of the length -/

/-- The decoder does not read beyond the length that it is given. -/
theorem unpackAll_append {t : List UInt8} (short : t.length < 2 ^ 31) (ne : t ≠ [])
    (extra : List UInt8) {fuel rounds : Nat} (le : t.length + 1 ≤ fuel)
    (le' : t.length + 1 ≤ rounds) :
    unpackAll fuel rounds ⟨t ++ extra, t.length, 0⟩ = unserialize t := by
  have len : (Int32.ofNat t.length).toInt = t.length := Int32.toInt_ofNat_of_lt short
  have positive : (t.length : Int) ≠ 0 := by
    have := List.length_pos_of_ne_nil ne
    omega
  have run : unserialize t = unpackAll (t.length + 1) (t.length + 1) ⟨t, t.length, 0⟩ := by
    simp only [unserialize, len]
    exact if_neg positive
  have related : Longer extra ⟨t ++ extra, t.length, 0⟩ ⟨t, t.length, 0⟩ :=
    ⟨rfl, rfl, rfl, le_rfl, Int.natCast_nonneg _, Int.zero_add _⟩
  have agrees := (Longer.follows extra).unpackAll Longer.len le le' related
  rw [← run] at agrees
  exact (agrees.unexcused fun f out => out ▸ unserialize_ne_outOfFuel short).symm

theorem unpackBuffer_append {t : List UInt8} (short : t.length < 2 ^ 31) (extra : List UInt8) :
    unpackBuffer (t ++ extra) (Int32.ofNat t.length) = unserialize t := by
  have len : (Int32.ofNat t.length).toInt = t.length := Int32.toInt_ofNat_of_lt short
  unfold unpackBuffer
  split_ifs with zero
  · rw [zero] at len
    have nil : t.length = 0 := by
      have : (0 : Int32).toInt = 0 := rfl
      omega
    rw [List.length_eq_zero_iff.mp nil]
    rfl
  · have ne : t ≠ [] := by
      rintro rfl
      exact zero rfl
    rw [Int32.toNatClampNeg, len]
    exact unpackAll_append short ne extra le_rfl le_rfl

/-- The length that the first four bytes spell. -/
def prefixLength (s : List UInt8) : Nat := StringPack.ofBytes (s.take 4)

/-- `UnpackString` raises an error when bytes of the length are missing, and else it does with the
bytes after the length what `Unserialize` does. -/
def ChecksLength (s : List UInt8) : Prop :=
  if s.length < 4 ∨ s.length < 4 + prefixLength s then
    ∃ msg, unpackString s = .error (.raised msg)
  else unpackString s = unserialize ((s.drop 4).take (prefixLength s))

theorem unpackString_eq {s : List UInt8} (long : 4 ≤ s.length) : unpackString s =
    if s.length < (4 + prefixLength s) % 2 ^ 32 then .error (.raised "Invalid serialize stream")
    else unpackBuffer (s.drop 4) (UInt32.ofNat (prefixLength s)).toInt32 := by
  match s, long with
  | b0 :: b1 :: b2 :: b3 :: rest, _ =>
    have value := or_toNat b0 b1 b2 b3
    have same : prefixLength (b0 :: b1 :: b2 :: b3 :: rest) =
        StringPack.ofBytes [b0, b1, b2, b3] := rfl
    rw [same, ← value, unpackString]
    simp only [UInt32.toNat_add, UInt32.ofNat_toNat, List.length_cons]
    rfl

theorem prefixLength_lt (s : List UInt8) : prefixLength s < 2 ^ 32 :=
  LittleEndian.ofBytes_lt_pow (k := 4) (by simp)

/-- A length that fits is checked and becomes the same `int`. -/
theorem unpackString_append {s : List UInt8} (long : 4 ≤ s.length)
    (fits : 4 + prefixLength s ≤ s.length) (small : 4 + prefixLength s < 2 ^ 31) :
    unpackString s = unserialize ((s.drop 4).take (prefixLength s)) := by
  have length : ((s.drop 4).take (prefixLength s)).length = prefixLength s := by
    rw [List.length_take, List.length_drop]
    omega
  have int : (UInt32.ofNat (prefixLength s)).toInt32 =
      Int32.ofNat ((s.drop 4).take (prefixLength s)).length := by
    rw [length]
    rfl
  have buffer := unpackBuffer_append (t := (s.drop 4).take (prefixLength s)) (by omega)
    ((s.drop 4).drop (prefixLength s))
  rw [List.take_append_drop] at buffer
  rw [unpackString_eq long, Nat.mod_eq_of_lt (by omega), if_neg (by omega), int, buffer]

/-- From 2^32 - 4 on, `4 + len` is less than 4, and the length is a negative `int`. -/
theorem unpackString_wrapped {s : List UInt8} (long : 4 ≤ s.length)
    (large : 2 ^ 32 - 4 ≤ prefixLength s) : unpackString s = .ok [] := by
  have bound := prefixLength_lt s
  have wraps : ¬s.length < (4 + prefixLength s) % 2 ^ 32 := by omega
  have negative := toInt_ofNat_neg (n := prefixLength s) (by omega) bound
  have int : (UInt32.ofNat (prefixLength s)).toInt32 = Int32.ofNat (prefixLength s) := rfl
  have ne : Int32.ofNat (prefixLength s) ≠ 0 := by
    intro zero
    rw [zero] at negative
    exact absurd negative (by decide)
  have none : (⟨s.drop 4, (Int32.ofNat (prefixLength s)).toInt, 0⟩ : ReadBlock).read 1 = none :=
    if_pos (by dsimp only; omega)
  rw [unpackString_eq long, if_neg wraps, int, unpackBuffer, if_neg ne, unpackAll, none]

theorem packString_eq {h : Heap} {vs : List Value} {bytes : List UInt8}
    (serialized : serialize h vs = .ok bytes) (small : bytes.length < 2 ^ 32) :
    packString h vs = .ok (StringPack.toBytes 4 bytes.length ++ bytes) := by
  have len : (UInt32.ofNat bytes.length).toNat = bytes.length := UInt32.toNat_ofNat_of_lt' small
  rw [packString, serialized]
  change Except.ok _ = _
  rw [head_toBytes, len]

theorem checksLength_iff {s : List UInt8} (short : s.length < 2 ^ 31) :
    ChecksLength s ↔ s.length < 4 ∨ prefixLength s < 2 ^ 32 - 4 := by
  have bound := prefixLength_lt s
  unfold ChecksLength
  by_cases tiny : s.length < 4
  · rw [if_pos (Or.inl tiny)]
    refine ⟨fun _ => Or.inl tiny, fun _ => ⟨"Invalid serialize stream", ?_⟩⟩
    match s, tiny with
    | [], _ | [_], _ | [_, _], _ | [_, _, _], _ => rfl
  · have long : 4 ≤ s.length := not_lt.mp tiny
    by_cases fits : s.length < 4 + prefixLength s
    · rw [if_pos (Or.inr fits)]
      constructor
      · rintro ⟨msg, eq⟩
        refine Or.inr (lt_of_not_ge fun large => ?_)
        rw [unpackString_wrapped long large] at eq
        cases eq
      · intro small
        have small := small.resolve_left tiny
        refine ⟨"Invalid serialize stream", ?_⟩
        rw [unpackString_eq long, Nat.mod_eq_of_lt (by omega), if_pos fits]
    · rw [if_neg (by omega)]
      exact ⟨fun _ => Or.inr (by omega),
        fun _ => unpackString_append long (not_lt.mp fits) (by omega)⟩

theorem unpackString_packString {h : Heap} {vs : List Value} {bytes : List UInt8}
    (serialized : serialize h vs = .ok bytes) (short : bytes.length < 2 ^ 31 - 4)
    (rest : List UInt8) : ∃ packed, packString h vs = .ok packed ∧
      unpackString (packed ++ rest) = unserialize bytes := by
  refine ⟨_, packString_eq serialized (by omega), ?_⟩
  have length : prefixLength (StringPack.toBytes 4 bytes.length ++ bytes ++ rest) =
      bytes.length := by
    rw [List.append_assoc]
    exact StringPack.ofBytes_take_toBytes (by omega) _
  have long := StringPack.le_length (k := 4) bytes.length (bytes ++ rest)
  have total : (StringPack.toBytes 4 bytes.length ++ bytes ++ rest).length =
      4 + bytes.length + rest.length := by
    rw [List.length_append, List.length_append, StringPack.length_toBytes]
  rw [List.append_assoc] at total length ⊢
  rw [unpackString_append long (by omega) (by omega), length, StringPack.drop_toBytes,
    List.take_left]

end Starnet.LuaSeri
