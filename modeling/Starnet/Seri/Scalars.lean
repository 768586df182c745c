import Starnet.Seri.Unpack

/-! The decoder reads back the scalars that the encoder writes. `Reads p bytes a` says that `p`
consumes exactly `bytes`, whatever follows them. -/

namespace Starnet.LuaSeri

open LittleEndian

/-- The bytes that are left to read. -/
structure ReadBlock.Holds (rb : ReadBlock) (bytes : List UInt8) : Prop where
  ptr : 0 ≤ rb.ptr
  len : rb.len = bytes.length
  bytes : rb.buffer.drop rb.ptr.toNat = bytes

theorem ReadBlock.Holds.read {rb : ReadBlock} {bytes rest : List UInt8}
    (h : rb.Holds (bytes ++ rest)) :
    ∃ rb', rb.read bytes.length = some (bytes, rb') ∧ rb'.Holds rest := by
  have enough : ¬rb.len < bytes.length := by
    rw [h.len, List.length_append]
    omega
  have ptr := h.ptr
  refine ⟨{ rb with ptr := rb.ptr + bytes.length, len := rb.len - bytes.length }, ?_, ?_, ?_, ?_⟩
  · rw [ReadBlock.read, if_neg enough, h.bytes, Int.toNat_natCast, List.take_left]
  · change 0 ≤ rb.ptr + bytes.length
    omega
  · change rb.len - bytes.length = rest.length
    rw [h.len, List.length_append]
    omega
  · change rb.buffer.drop (rb.ptr + bytes.length).toNat = rest
    rw [Int.toNat_add ptr (Int.natCast_nonneg _), Int.toNat_natCast, ← List.drop_drop, h.bytes,
      List.drop_left]

variable {α β : Type}

/-- The reader `p` reads `bytes` and returns `a`. -/
def Reads (p : ReadBlock → Except Failure (α × ReadBlock)) (bytes : List UInt8) (a : α) : Prop :=
  ∀ rb rest, rb.Holds (bytes ++ rest) → ∃ rb', p rb = .ok (a, rb') ∧ rb'.Holds rest

namespace Reads

theorem pure (a : α) : Reads (fun rb => .ok (a, rb)) [] a := fun rb _ h => ⟨rb, rfl, h⟩

theorem bind {p : ReadBlock → Except Failure (α × ReadBlock)}
    {q : α → ReadBlock → Except Failure (β × ReadBlock)} {xs ys : List UInt8} {a : α} {b : β}
    (first : Reads p xs a) (second : Reads (q a) ys b) :
    Reads (fun rb => p rb >>= fun r => q r.1 r.2) (xs ++ ys) b := by
  intro rb rest h
  rw [List.append_assoc] at h
  obtain ⟨rb₁, eq₁, h₁⟩ := first rb (ys ++ rest) h
  obtain ⟨rb₂, eq₂, h₂⟩ := second rb₁ rest h₁
  refine ⟨rb₂, ?_, h₂⟩
  change (p rb >>= fun r => q r.1 r.2) = _
  rw [eq₁]
  exact eq₂

/-- A result is computed from what is read. -/
theorem map {p : ReadBlock → Except Failure (α × ReadBlock)} {xs : List UInt8} {a : α}
    (first : Reads p xs a) (f : α → β) :
    Reads (fun rb => p rb >>= fun r => Except.ok (f r.1, r.2)) xs (f a) := by
  have second := first.bind (q := fun a rb => .ok (f a, rb)) (pure (f a))
  rwa [List.append_nil] at second

theorem readOrFail (bytes : List UInt8) {sz : Int} (length : (bytes.length : Int) = sz)
    (line : Nat) : Reads (fun rb => rb.readOrFail sz line) bytes bytes := by
  intro rb rest h
  obtain ⟨rb', eq, h'⟩ := h.read
  subst length
  refine ⟨rb', ?_, h'⟩
  simp only [ReadBlock.readOrFail, eq]

/-- A number of `k` bytes. -/
theorem number (k line : Nat) (f : Nat → α) {n : Nat} (h : n < 256 ^ k) :
    Reads (fun rb => rb.readOrFail k line >>= fun r => Except.ok (f (ofBytes r.1), r.2))
      (toBytes k n) (f n) := by
  have length : ((toBytes k n).length : Int) = k := by rw [length_toBytes]
  have reads := (readOrFail (toBytes k n) length line).map fun bytes => f (ofBytes bytes)
  rwa [ofBytes_toBytes h] at reads

theorem readByte (byte : UInt8) (line : Nat) : Reads (fun rb => rb.readByte line) [byte] byte :=
  (readOrFail [byte] rfl line).map fun bytes => bytes.headD 0

end Reads

/-! ### Type bytes -/

/-- A type byte gives back its type and its cookie. -/
theorem combineType_spec {t v : UInt8} (ht : t < 8) (hv : v < 32) :
    typeOf (combineType t v) = t ∧ cookieOf (combineType t v) = v := by
  have all : ∀ t : Fin 8, ∀ v : Fin 32,
      typeOf (combineType (UInt8.ofNat t) (UInt8.ofNat v)) = UInt8.ofNat t ∧
      cookieOf (combineType (UInt8.ofNat t) (UInt8.ofNat v)) = UInt8.ofNat v := by
    decide
  have spec := all ⟨t.toNat, ht⟩ ⟨v.toNat, hv⟩
  rwa [UInt8.ofNat_toNat, UInt8.ofNat_toNat] at spec

/-- Only the low five bits of the cookie are in the type byte. -/
theorem combineType_multiple {t v : UInt8} (h : v.toNat % 32 = 0) :
    combineType t v = combineType t 0 := by
  have shifted : v <<< 3 = 0 := by
    apply UInt8.toNat_inj.mp
    rw [UInt8.toNat_shiftLeft, Nat.shiftLeft_eq]
    change v.toNat * 2 ^ 3 % 2 ^ 8 = 0
    omega
  rw [combineType, shifted]
  rfl

/-- The low byte of an `int`. -/
theorem toNat_ofInt (n : Int) : (UInt8.ofInt n).toNat = (n % 256).toNat :=
  UInt8.toNat_ofNat_of_lt' (by change (n % 256).toNat < 256; omega)

/-! ### Integers -/

theorem ofNat_toUInt64 (v : Int64) : Int64.ofNat v.toUInt64.toNat = v := by
  apply Int64.toBitVec_inj.mp
  exact BitVec.ofNat_toNat ..

theorem signed32_low {v : Int64} (h : v = v.toInt32.toInt64) :
    signed32 v.toUInt64.toUInt32.toNat = v := by
  have low : Int32.ofNat v.toUInt64.toUInt32.toNat = v.toInt32 := by
    rw [← UInt32.toInt32_ofNat', UInt32.ofNat_toNat]
    apply Int32.toBitVec_inj.mp
    exact (BitVec.signExtend_eq_setWidth_of_le v.toBitVec (by decide)).symm
  rw [signed32, low, ← h]

theorem toNat_toUInt64_lt {v : Int64} {n : Nat} (positive : ¬v < 0) (h : v.toInt < n) :
    v.toUInt64.toNat < n := by
  rw [Int64.lt_iff_toInt_lt] at positive
  have value : v.toInt = v.toBitVec.toInt := rfl
  have same : v.toUInt64.toNat = v.toBitVec.toNat := rfl
  have zero : (0 : Int64).toInt = 0 := rfl
  have cases := BitVec.toInt_eq_toNat_cond v.toBitVec
  have bound := v.toBitVec.isLt
  split at cases <;> omega

/-- `wb_integer` writes a type byte and what `get_integer` reads for its cookie. -/
theorem getInteger_wbInteger (v : Int64) :
    ∃ byte payload, wbInteger v = byte :: payload ∧ typeOf byte = typeNumber ∧
      cookieOf byte ≠ typeNumberReal ∧ Reads (fun rb => getInteger rb (cookieOf byte)) payload v := by
  have low : v.toUInt64.toUInt32.toNat < 256 ^ 4 := v.toUInt64.toUInt32.toNat_lt
  unfold wbInteger
  split
  · rename_i zero
    exact ⟨_, _, rfl, by decide, by decide, zero ▸ .pure 0⟩
  · split
    · have reads := Reads.number 8 307 Int64.ofNat v.toUInt64.toNat_lt
      rw [ofNat_toUInt64] at reads
      exact ⟨_, _, rfl, by decide, by decide, reads⟩
    · rename_i fits
      have fits := not_not.mp fits
      have reads := Reads.number 4 299 signed32 low
      rw [signed32_low fits] at reads
      split
      · exact ⟨_, _, rfl, by decide, by decide, reads⟩
      · rename_i positive
        split
        · rename_i small
          rw [Int64.lt_iff_toInt_lt] at small
          have reads := Reads.number 1 283 Int64.ofNat (toNat_toUInt64_lt positive small)
          rw [ofNat_toUInt64] at reads
          exact ⟨_, _, rfl, by decide, by decide, reads⟩
        · split
          · rename_i small
            rw [Int64.lt_iff_toInt_lt] at small
            have reads := Reads.number 2 291 Int64.ofNat (toNat_toUInt64_lt positive small)
            rw [ofNat_toUInt64] at reads
            exact ⟨_, _, rfl, by decide, by decide, reads⟩
          · exact ⟨_, _, rfl, by decide, by decide, reads⟩

/-! ### Values -/

/-- `bytes` is a type byte and what `push_value` reads for it. -/
def Pushes (fuel : Nat) (bytes : List UInt8) (value : Tree) : Prop :=
  ∃ byte payload, bytes = byte :: payload ∧
    Reads (fun rb => pushValue (fun rb => unpackOne fuel rb) fuel rb (typeOf byte) (cookieOf byte))
      payload value

theorem Pushes.ne_nil {fuel : Nat} {bytes : List UInt8} {value : Tree}
    (h : Pushes fuel bytes value) : bytes ≠ [] := by
  obtain ⟨byte, payload, rfl, -⟩ := h
  exact List.cons_ne_nil _ _

theorem Pushes.unpackOne {fuel : Nat} {bytes : List UInt8} {value : Tree}
    (h : Pushes fuel bytes value) : Reads (fun rb => unpackOne (fuel + 1) rb) bytes value := by
  obtain ⟨byte, payload, rfl, reads⟩ := h
  exact (Reads.readByte byte 443).bind
    (q := fun byte rb => pushValue (fun rb => LuaSeri.unpackOne fuel rb) fuel rb (typeOf byte)
      (cookieOf byte)) reads

section

variable (fuel : Nat)

theorem pushes_wbNil : Pushes fuel wbNil .nil := ⟨_, _, rfl, .pure _⟩

theorem pushes_wbBoolean (b : Bool) : Pushes fuel (wbBoolean b) (.boolean b) := by
  cases b with
  | false => exact ⟨_, _, rfl, .pure _⟩
  | true => exact ⟨_, _, rfl, .pure _⟩

theorem pushes_wbInteger (v : Int64) : Pushes fuel (wbInteger v) (.integer v) := by
  obtain ⟨byte, payload, eq, type, cookie, reads⟩ := getInteger_wbInteger v
  refine ⟨byte, payload, eq, ?_⟩
  have pushed : ∀ rb, pushValue (fun rb => unpackOne fuel rb) fuel rb (typeOf byte)
      (cookieOf byte) = getInteger rb (cookieOf byte) >>= fun r => .ok (.integer r.1, r.2) := by
    intro rb
    rw [type, pushValue]
    simp only [show typeNumber ≠ typeNil by decide, show typeNumber ≠ typeBoolean by decide,
      cookie, if_false, if_true]
    rfl
  simp only [pushed]
  exact reads.map Tree.integer

theorem pushes_wbReal (bits : UInt64) : Pushes fuel (wbReal bits) (.number bits) := by
  have reads := Reads.number 8 322 UInt64.ofNat bits.toNat_lt
  rw [UInt64.ofNat_toNat] at reads
  exact ⟨_, _, rfl, reads.map Tree.number⟩

theorem pushes_wbPointer (p : UInt64) : Pushes fuel (wbPointer p) (.lightuserdata p) := by
  have reads := Reads.number 8 332 UInt64.ofNat p.toNat_lt
  rw [UInt64.ofNat_toNat] at reads
  exact ⟨_, _, rfl, reads.map Tree.lightuserdata⟩

theorem getBuffer_reads (s : List UInt8) {len : Int} (length : (s.length : Int) = len) :
    Reads (fun rb => getBuffer rb len) s s := by
  intro rb rest h
  obtain ⟨rb', eq, h'⟩ := Reads.readOrFail s length 342 rb rest h
  have positive : ¬len < 0 := by omega
  refine ⟨rb', ?_, h'⟩
  simp only [getBuffer, eq]
  exact if_neg positive

/-- The end of the string cases of `push_value`. -/
def pushString (len : Int) (rb : ReadBlock) : Except Failure (Tree × ReadBlock) :=
  getBuffer rb len >>= fun r => .ok (.string r.1, r.2)

theorem pushString_reads (s : List UInt8) {len : Int} (length : (s.length : Int) = len) :
    Reads (pushString len) s (.string s) :=
  (getBuffer_reads s length).map Tree.string

theorem pushes_wbString (s : List UInt8) (short : s.length < 2 ^ 31) :
    Pushes fuel (wbString s (Int32.ofNat s.length)) (.string s) := by
  have len : (Int32.ofNat s.length).toInt = s.length := Int32.toInt_ofNat_of_lt short
  have clamp : (Int32.ofNat s.length).toNatClampNeg = s.length := by
    rw [Int32.toNatClampNeg, len, Int.toNat_natCast]
  unfold wbString
  rw [len, clamp, List.take_length]
  split
  · rename_i tiny
    simp only [maxCookie] at tiny
    have value : (UInt8.ofInt s.length).toNat = s.length := by
      rw [toNat_ofInt]
      omega
    have small : UInt8.ofInt s.length < 32 := by
      rw [UInt8.lt_iff_toNat_lt, value]
      exact_mod_cast tiny
    obtain ⟨type, cookie⟩ := combineType_spec (t := typeShortString) (by decide) small
    refine ⟨_, _, rfl, ?_⟩
    rw [type, cookie]
    exact pushString_reads s (by rw [value])
  · split
    · rename_i word
      rw [Int32.lt_iff_toInt_lt, len] at word
      have word : s.length < 256 ^ 2 := by
        have : (0x10000 : Int32).toInt = 0x10000 := rfl
        omega
      exact ⟨_, _, rfl, (Reads.number 2 408 (fun n => (n : Int)) word).bind (q := pushString)
        (pushString_reads s rfl)⟩
    · have dword : s.length < 256 ^ 4 := by omega
      exact ⟨_, _, rfl, (Reads.number 4 419 (fun n => (Int32.ofNat n).toInt) dword).bind
        (q := pushString) (pushString_reads s len.symm)⟩

end

/-! ### Array sizes -/

/-- The size of the array part is read back as the number of its elements. -/
def SizeFits (size : Int32) : Prop := 0 ≤ size.toInt ∨ size.toInt % 32 = 0

/-- The header of a table is its type byte and what `unpack_table` reads as the array size. -/
theorem getArraySize_wbTableHeader {size : Int32} (fits : SizeFits size) :
    ∃ byte payload size', wbTableHeader size = byte :: payload ∧ typeOf byte = typeTable ∧
      size'.toNatClampNeg = size.toNatClampNeg ∧
      Reads (fun rb => getArraySize rb (cookieOf byte)) payload size' := by
  unfold wbTableHeader
  split
  · obtain ⟨byte, payload, eq, type, cookie, reads⟩ := getInteger_wbInteger size.toInt64
    have sized : Reads (fun rb => if typeOf byte ≠ typeNumber ∨ cookieOf byte = typeNumberReal
        then rb.invalidStream 360
        else getInteger rb (cookieOf byte) >>= fun r => .ok (r.1.toInt32, r.2)) payload size := by
      simp only [type, cookie, ne_eq, not_true_eq_false, or_self, if_false]
      have reads := reads.map Int64.toInt32
      rwa [Int32.toInt32_toInt64] at reads
    have escape := (Reads.readByte byte 355).bind (q := fun byte rb =>
      if typeOf byte ≠ typeNumber ∨ cookieOf byte = typeNumberReal then rb.invalidStream 360
      else getInteger rb (cookieOf byte) >>= fun r => .ok (r.1.toInt32, r.2)) sized
    rw [eq]
    exact ⟨_, _, size, rfl, by decide, rfl, escape⟩
  · rename_i small
    simp only [maxCookie] at small
    by_cases positive : 0 ≤ size.toInt
    · have value : (UInt8.ofInt size.toInt).toNat = size.toInt.toNat := by
        rw [toNat_ofInt]
        omega
      have cookie : UInt8.ofInt size.toInt < 32 := by
        rw [UInt8.lt_iff_toNat_lt, value]
        change size.toInt.toNat < 32
        omega
      obtain ⟨type, cookie⟩ := combineType_spec (t := typeTable) (by decide) cookie
      refine ⟨_, _, Int32.ofNat (UInt8.ofInt size.toInt).toNat, rfl, type, ?_, ?_⟩
      · rw [Int32.toNatClampNeg, Int32.toInt_ofNat_of_lt (by omega), value]
        rfl
      · rw [cookie]
        have short : ¬(UInt8.ofInt size.toInt).toNat = maxCookie - 1 := by
          simp only [maxCookie]
          omega
        simp only [getArraySize, if_neg short]
        exact .pure _
    · have multiple : (UInt8.ofInt size.toInt).toNat % 32 = 0 := by
        rw [toNat_ofInt]
        rcases fits with fits | fits <;> omega
      rw [combineType_multiple multiple]
      refine ⟨_, _, 0, rfl, by decide, ?_, .pure _⟩
      rw [Int32.toNatClampNeg, Int32.toNatClampNeg]
      change 0 = size.toInt.toNat
      omega

end Starnet.LuaSeri
