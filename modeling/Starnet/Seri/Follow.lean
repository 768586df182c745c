import Starnet.Lib.Outcome
import Starnet.Seri.Unpack

/-! Two runs of the decoder whose cursors are related. If the reads agree, then so do the runs: the
second one ends as the first one does, or with an excuse. -/

namespace Starnet.LuaSeri

open LittleEndian Lib

variable {α β : Type}

/-- The same result, with related cursors. -/
def Same (R : ReadBlock → ReadBlock → Prop) (r r' : α × ReadBlock) : Prop :=
  r.1 = r'.1 ∧ R r.2 r'.2

/-- The reads at related cursors agree. The second run may have less fuel. -/
structure Follows (excuse : Failure → Prop) (R : ReadBlock → ReadBlock → Prop) : Prop where
  fuel : excuse .outOfFuel
  len : ∀ {rb rb'}, R rb rb' → 0 ≤ rb.len ∧ 0 ≤ rb'.len
  read : ∀ {rb rb'}, R rb rb' → ∀ sz line : Nat,
    Agrees excuse (Same R) (rb.readOrFail sz line) (rb'.readOrFail sz line)
  invalid : ∀ {rb rb'}, R rb rb' → ∀ (line : Nat) {α : Type} {S : α → α → Prop},
    Agrees excuse S (rb.invalidStream line) (rb'.invalidStream line)

namespace Follows

variable {excuse : Failure → Prop} {R : ReadBlock → ReadBlock → Prop} {rb rb' : ReadBlock}

/-- A step whose result is passed on. -/
theorem bind {x y : Except Failure (α × ReadBlock)}
    {f g : α × ReadBlock → Except Failure (β × ReadBlock)}
    (first : Agrees excuse (Same R) x y)
    (next : ∀ a rb rb', R rb rb' → Agrees excuse (Same R) (f (a, rb)) (g (a, rb'))) :
    Agrees excuse (Same R) (x >>= f) (y >>= g) := by
  refine first.bind ?_
  rintro ⟨a, rb⟩ ⟨b, rb'⟩ ⟨rfl, related⟩
  exact next a rb rb' related

/-- A result that is computed from what is read. -/
theorem map {x y : Except Failure (α × ReadBlock)} (f : α → β)
    (first : Agrees excuse (Same R) x y) :
    Agrees excuse (Same R) (do let (a, rb) ← x; return (f a, rb))
      (do let (a, rb) ← y; return (f a, rb)) :=
  bind first fun _ _ _ related => .returned ⟨rfl, related⟩

variable (follows : Follows excuse R)

include follows

theorem readByte (related : R rb rb') (line : Nat) :
    Agrees excuse (Same R) (rb.readByte line) (rb'.readByte line) :=
  map (fun bytes => bytes.headD 0) (follows.read related 1 line)

theorem getInteger (related : R rb rb') (cookie : UInt8) :
    Agrees excuse (Same R) (getInteger rb cookie) (getInteger rb' cookie) := by
  unfold LuaSeri.getInteger
  split_ifs
  · exact .returned ⟨rfl, related⟩
  · exact map (fun bytes => Int64.ofNat (ofBytes bytes)) (follows.read related 1 283)
  · exact map (fun bytes => Int64.ofNat (ofBytes bytes)) (follows.read related 2 291)
  · exact map (fun bytes => signed32 (ofBytes bytes)) (follows.read related 4 299)
  · exact map (fun bytes => Int64.ofNat (ofBytes bytes)) (follows.read related 8 307)
  · exact follows.invalid related 312

theorem getBits (related : R rb rb') (line : Nat) :
    Agrees excuse (Same R) (getBits line rb) (getBits line rb') :=
  map (fun bytes => UInt64.ofNat (ofBytes bytes)) (follows.read related 8 line)

/-- A negative length is read in both runs, and then refused. -/
theorem getBuffer (related : R rb rb') (len : Int) :
    Agrees excuse (Same R) (getBuffer rb len) (getBuffer rb' len) := by
  by_cases negative : len < 0
  · have refused {rb : ReadBlock} (positive : 0 ≤ rb.len) : LuaSeri.getBuffer rb len =
        .error (.raised "memory allocation error: block too big") := by
      have enough : ¬rb.len < len := by omega
      simp only [LuaSeri.getBuffer, ReadBlock.readOrFail, ReadBlock.read, if_neg enough]
      exact if_pos negative
    obtain ⟨first, second⟩ := follows.len related
    rw [refused first, refused second]
    exact .failed _
  · have read := follows.read related len.toNat 342
    rw [Int.toNat_of_nonneg (not_lt.mp negative)] at read
    unfold LuaSeri.getBuffer
    simp only [if_neg negative]
    exact map id read

theorem getLength (related : R rb rb') (cookie : UInt8) :
    Agrees excuse (Same R) (getLength rb cookie) (getLength rb' cookie) := by
  unfold LuaSeri.getLength
  split_ifs
  · exact map (fun bytes => (ofBytes bytes : Int)) (follows.read related 2 408)
  · exact map (fun bytes => (Int32.ofNat (ofBytes bytes)).toInt) (follows.read related 4 419)
  · exact follows.invalid related 415

theorem getArraySize (related : R rb rb') (cookie : UInt8) :
    Agrees excuse (Same R) (getArraySize rb cookie) (getArraySize rb' cookie) := by
  unfold LuaSeri.getArraySize
  split_ifs
  · refine bind (follows.readByte related 355) fun byte rb₁ rb₁' related₁ => ?_
    dsimp only
    split_ifs
    · exact follows.invalid related₁ 360
    · exact map Int64.toInt32 (follows.getInteger related₁ _)
  · exact .returned ⟨rfl, related⟩

section

variable {unpack unpack' : ReadBlock → Except Failure (Tree × ReadBlock)}
  (step : ∀ {rb rb'}, R rb rb' → Agrees excuse (Same R) (unpack rb) (unpack' rb'))

include step

omit follows in
theorem unpackArray (count i : Nat) (entries : List (Tree × Tree)) (related : R rb rb') :
    Agrees excuse (Same R) (unpackArray unpack count i entries rb)
      (unpackArray unpack' count i entries rb') := by
  induction count generalizing i entries rb rb' with
  | zero => exact .returned ⟨rfl, related⟩
  | succ count ih =>
    exact bind (step related) fun value rb₁ rb₁' related₁ => ih (i + 1) _ related₁

theorem unpackHash {fuel fuel' : Nat} (le : fuel' ≤ fuel) (entries : List (Tree × Tree))
    (related : R rb rb') :
    Agrees excuse (Same R) (unpackHash unpack fuel entries rb)
      (unpackHash unpack' fuel' entries rb') := by
  induction fuel' generalizing fuel entries rb rb' with
  | zero => exact .excused follows.fuel
  | succ fuel' ih =>
    obtain ⟨fuel, rfl⟩ := Nat.exists_eq_add_of_le' (Nat.zero_lt_of_lt le)
    refine bind (step related) fun key rb₁ rb₁' related₁ => ?_
    dsimp only
    split_ifs
    · exact .returned ⟨rfl, related₁⟩
    · refine bind (step related₁) fun value rb₂ rb₂' related₂ => ?_
      dsimp only
      cases Tree.rawset entries key value with
      | error msg => exact .failed _
      | ok entries' => exact ih (by omega) entries' related₂

theorem unpackTable {fuel fuel' : Nat} (le : fuel' ≤ fuel) (related : R rb rb') (cookie : UInt8) :
    Agrees excuse (Same R) (unpackTable unpack fuel rb cookie)
      (unpackTable unpack' fuel' rb' cookie) := by
  refine bind (follows.getArraySize related cookie) fun size rb₁ rb₁' related₁ => ?_
  refine bind (unpackArray step _ 1 [] related₁) fun entries rb₂ rb₂' related₂ => ?_
  exact map Tree.table (follows.unpackHash step le entries related₂)

theorem pushValue {fuel fuel' : Nat} (le : fuel' ≤ fuel) (related : R rb rb')
    (type cookie : UInt8) :
    Agrees excuse (Same R) (pushValue unpack fuel rb type cookie)
      (pushValue unpack' fuel' rb' type cookie) := by
  unfold LuaSeri.pushValue
  split_ifs
  · exact .returned ⟨rfl, related⟩
  · exact .returned ⟨rfl, related⟩
  · exact map Tree.number (follows.getBits related 322)
  · exact map Tree.integer (follows.getInteger related cookie)
  · exact map Tree.lightuserdata (follows.getBits related 332)
  · exact map Tree.string (follows.getBuffer related cookie.toNat)
  · refine bind (follows.getLength related cookie) fun len rb₁ rb₁' related₁ => ?_
    exact map Tree.string (follows.getBuffer related₁ len)
  · exact follows.unpackTable step le related cookie
  · exact follows.invalid related 432

end

theorem unpackOne {fuel fuel' : Nat} (le : fuel' ≤ fuel) (related : R rb rb') :
    Agrees excuse (Same R) (unpackOne fuel rb) (unpackOne fuel' rb') := by
  induction fuel' generalizing fuel rb rb' with
  | zero => exact .excused follows.fuel
  | succ fuel' ih =>
    obtain ⟨fuel, rfl⟩ := Nat.exists_eq_add_of_le' (Nat.zero_lt_of_lt le)
    refine bind (follows.readByte related 443) fun byte rb₁ rb₁' related₁ => ?_
    exact follows.pushValue (fun related => ih (by omega) related) (by omega) related₁ _ _

/-- When the cursors have the same number of bytes left, the loop of `unpack_buffer` ends in both
runs at once. -/
theorem unpackAll (same : ∀ {rb rb'}, R rb rb' → rb.len = rb'.len) {fuel fuel' : Nat}
    (le : fuel' ≤ fuel) {rounds rounds' : Nat} (le' : rounds' ≤ rounds) (related : R rb rb') :
    Agrees excuse Eq (unpackAll fuel rounds rb) (unpackAll fuel' rounds' rb') := by
  induction rounds' generalizing rounds rb rb' with
  | zero => exact .excused follows.fuel
  | succ rounds' ih =>
    obtain ⟨rounds, rfl⟩ := Nat.exists_eq_add_of_le' (Nat.zero_lt_of_lt le')
    have first := follows.read related 1 0
    have ends := same related
    rw [LuaSeri.unpackAll, LuaSeri.unpackAll]
    by_cases last : rb.len < 1
    · have none {rb : ReadBlock} (last : rb.len < 1) : rb.read 1 = none := if_pos last
      rw [none last, none (by omega)]
      exact .returned rfl
    · have some {rb : ReadBlock} (more : ¬rb.len < 1) : ∃ bytes rb₁,
          rb.read 1 = some (bytes, rb₁) ∧ rb.readOrFail 1 0 = .ok (bytes, rb₁) := by
        refine ⟨_, _, if_neg more, ?_⟩
        rw [ReadBlock.readOrFail, ReadBlock.read, if_neg more]
      obtain ⟨bytes, rb₁, read, ok⟩ := some last
      obtain ⟨bytes', rb₁', read', ok'⟩ := some (show ¬rb'.len < 1 by omega)
      change Agrees excuse (Same R) (rb.readOrFail 1 0) (rb'.readOrFail 1 0) at first
      rw [ok, ok'] at first
      cases first with
      | returned related₁ =>
        obtain ⟨rfl, related₁⟩ := related₁
        rw [read, read']
        refine Agrees.bind (follows.pushValue (fun related => follows.unpackOne le related) le
          related₁ _ _) ?_
        rintro ⟨value, rb₂⟩ ⟨value', rb₂'⟩ ⟨rfl, related₂⟩
        refine (ih (Nat.le_of_succ_le_succ le') related₂).bind ?_
        rintro ws ws' rfl
        exact .returned rfl

end Follows

/-! ### Bytes after the input -/

/-- The first run has bytes in the buffer after those of its length. -/
structure Longer (extra : List UInt8) (rb rb' : ReadBlock) : Prop where
  buffer : rb.buffer = rb'.buffer ++ extra
  ptr : rb.ptr = rb'.ptr
  len : rb.len = rb'.len
  start : 0 ≤ rb'.ptr
  left : 0 ≤ rb'.len
  total : rb'.ptr + rb'.len = rb'.buffer.length

theorem Longer.follows (extra : List UInt8) : Follows (· = .outOfFuel) (Longer extra) where
  fuel := rfl
  len h := ⟨h.len ▸ h.left, h.left⟩
  read := by
    rintro rb rb' ⟨buffer, ptr, len, start, left, total⟩ sz line
    by_cases short : rb'.len < sz
    · have short' : rb.len < sz := len ▸ short
      rw [ReadBlock.readOrFail, ReadBlock.readOrFail, ReadBlock.read, ReadBlock.read, if_pos short,
        if_pos short', ReadBlock.invalidStream, ReadBlock.invalidStream, len]
      exact .failed _
    · have enough : ¬rb.len < sz := len ▸ short
      have bytes : (rb.buffer.drop rb.ptr.toNat).take (sz : Int).toNat =
          (rb'.buffer.drop rb'.ptr.toNat).take (sz : Int).toNat := by
        rw [buffer, ptr, List.drop_append_of_le_length (by omega),
          List.take_append_of_le_length (by rw [List.length_drop]; omega)]
      rw [ReadBlock.readOrFail, ReadBlock.readOrFail, ReadBlock.read, ReadBlock.read, if_neg short,
        if_neg enough, bytes]
      refine .returned ⟨rfl, buffer, ?_, ?_, ?_, ?_, ?_⟩
      · show rb.ptr + sz = rb'.ptr + sz
        omega
      · show rb.len - sz = rb'.len - sz
        omega
      · show 0 ≤ rb'.ptr + sz
        omega
      · show 0 ≤ rb'.len - sz
        omega
      · show rb'.ptr + sz + (rb'.len - sz) = rb'.buffer.length
        omega
  invalid := by
    intro rb rb' h line α S
    rw [ReadBlock.invalidStream, ReadBlock.invalidStream, h.len]
    exact .failed _

end Starnet.LuaSeri
