import Starnet.Socket.Event

/-! The read buffer of a connection. `ReadData` changes the size that it reads with after every
read, while the buffer is only ever replaced by a larger one. -/

namespace Starnet

/-- A call of `read`: its size, and the capacity of the buffer at that time. -/
structure ReadCall where
  size : Nat
  cap : Nat
  deriving DecidableEq, Repr

namespace Conn

open SocketServer (growBuffer adaptReadSize growBuffer_eq adaptReadSize_eq)

/-- The call of `read` in the next round. -/
def readCall (conn : Conn) : ReadCall := ⟨(growBuffer conn).readSize, (growBuffer conn).readBuffCap⟩

/-- What a round of the loop in `ReadData` does to the connection, and whether another one
follows. -/
def readRound (conn : Conn) : ReadOutcome → Bool × Conn
  | .data bytes =>
    let conn := growBuffer conn
    let len := (bytes.take conn.readSize).length
    if len > 0 then (len = conn.readSize, adaptReadSize conn len) else (false, conn)
  | .eof | .error | .eagain | .eintr => (false, growBuffer conn)

/-- What `ReadData` does to the connection, and its calls of `read`. -/
def readData (conn : Conn) : List ReadOutcome → List ReadCall × Conn
  | [] => ([conn.readCall], (conn.readRound .eagain).2)
  | outcome :: outcomes =>
    match conn.readRound outcome with
    | (true, next) => (conn.readCall :: (next.readData outcomes).1, (next.readData outcomes).2)
    | (false, next) => ([conn.readCall], next)

/-- `ReadData` is called with any results of its reads. Nothing else assigns to the size and the
capacity of the buffer. -/
inductive ReadStep : Conn → List ReadCall → Conn → Prop
  | readData (conn : Conn) (outcomes : List ReadOutcome) :
      ReadStep conn (conn.readData outcomes).1 (conn.readData outcomes).2
  | other {conn conn' : Conn} (readSize : conn'.readSize = conn.readSize)
      (readBuffCap : conn'.readBuffCap = conn.readBuffCap) : ReadStep conn [] conn'

/-- A connection from the time it is made. -/
def reading : Transition.System Conn (List ReadCall) where
  init conn := conn.readSize = readBufferMin ∧ conn.readBuffCap = 0
  step := ReadStep

/-! ### The engine -/

variable {conn conn' : Conn}

/-- A round of the engine changes the connection as the round here does, or closes it and is the
last one. -/
theorem readRound_engine {s : SocketServer} {fd : Int32} (managed : s.conns fd = some conn)
    (outcome : ReadOutcome) :
    (s.readRound fd outcome).1 = (conn.readRound outcome).1 ∧
      ((s.readRound fd outcome).2.conns fd = some (conn.readRound outcome).2 ∨
        (s.readRound fd outcome).1 = false ∧ (s.readRound fd outcome).2.conns fd = none) := by
  unfold SocketServer.readRound readRound
  rw [managed]
  cases outcome with
  | data bytes =>
    dsimp only
    by_cases some : (bytes.take (growBuffer conn).readSize).length > 0
    · rw [if_pos some, if_pos some]
      exact ⟨rfl, Or.inl (SocketServer.conns_setConn ..)⟩
    · rw [if_neg some, if_neg some]
      exact ⟨rfl, Or.inr ⟨rfl, (SocketServer.notifyClose_slot _).1⟩⟩
  | eof | error => exact ⟨rfl, Or.inr ⟨rfl, (SocketServer.notifyClose_slot _).1⟩⟩
  | eagain | eintr => exact ⟨rfl, Or.inl (SocketServer.conns_setConn ..)⟩

theorem readRound_kept {s : SocketServer} {fd : Int32} (managed : s.conns fd = some conn)
    {outcome : ReadOutcome} (kept : (s.readRound fd outcome).2.conns fd = some conn') :
    conn' = (conn.readRound outcome).2 := by
  rcases (readRound_engine managed outcome).2 with next | ⟨-, gone⟩
  · exact Option.some.inj (kept.symm.trans next)
  · cases gone.symm.trans kept

/-- `ReadData` of the engine leaves the connection that `readData` leaves, if it keeps it. -/
theorem readData_engine {s : SocketServer} {fd : Int32} (managed : s.conns fd = some conn)
    (outcomes : List ReadOutcome) (kept : (s.readData fd outcomes).conns fd = some conn') :
    conn' = (conn.readData outcomes).2 := by
  induction outcomes generalizing s conn with
  | nil => exact readRound_kept managed kept
  | cons outcome outcomes ih =>
    obtain ⟨again, next⟩ := readRound_engine managed outcome
    have last : (s.readRound fd outcome).2.conns fd = some conn' →
        conn' = (conn.readRound outcome).2 := readRound_kept managed
    unfold SocketServer.readData at kept
    unfold readData
    rcases round : s.readRound fd outcome with ⟨more, t⟩
    rcases alone : conn.readRound outcome with ⟨more', conn₁⟩
    rw [round] at again next kept last
    rw [alone] at again next last
    obtain rfl : more = more' := again
    cases more with
    | false => exact last kept
    | true =>
      rcases next with still | ⟨stops, -⟩
      · exact ih still kept
      · cases stops

/-! ### The sizes -/

/-- A size that doubling from the minimum comes to. -/
def Ladder (size : Nat) : Prop := ∃ k ≤ 7, size = readBufferMin * 2 ^ k

theorem ladder_bounds {size : Nat} (ladder : Ladder size) :
    readBufferMin ≤ size ∧ size ≤ readBufferMax := by
  obtain ⟨k, le, rfl⟩ := ladder
  exact ⟨Nat.le_mul_of_pos_right _ (Nat.two_pow_pos k),
    Nat.mul_le_mul_left readBufferMin (Nat.pow_le_pow_right (by decide) le)⟩

/-- Both the double of a size and the half of it are on the ladder, within its ends. -/
theorem ladder_adaptReadSize (ladder : Ladder conn.readSize) (len : Nat) :
    Ladder (adaptReadSize conn len).readSize := by
  obtain ⟨k, le, size⟩ := ladder
  unfold adaptReadSize
  split
  · split
    · rename_i below
      dsimp only
      have room : k < 7 := by
        rw [size] at below
        exact (Nat.pow_lt_pow_iff_right (by decide : 1 < 2)).mp
          (Nat.lt_of_mul_lt_mul_left (a := readBufferMin) below)
      have double : conn.readSize * 2 = readBufferMin * 2 ^ (k + 1) := by
        rw [size, pow_succ, Nat.mul_assoc]
      have top := (ladder_bounds ⟨k + 1, room, double⟩).2
      rw [if_neg (by omega)]
      exact ⟨k + 1, room, double⟩
    · exact ⟨k, le, size⟩
  · split
    · rename_i above
      cases k with
      | zero => exact absurd above.1 (by rw [size, pow_zero, Nat.mul_one]; exact Nat.lt_irrefl _)
      | succ k =>
        refine ⟨k, by omega, ?_⟩
        dsimp only
        rw [size, pow_succ, ← Nat.mul_assoc, Nat.mul_div_cancel _ (by decide)]
    · exact ⟨k, le, size⟩

@[simp] theorem adaptReadSize_readBuffCap (conn : Conn) (len : Nat) :
    (adaptReadSize conn len).readBuffCap = conn.readBuffCap := by
  obtain ⟨size, eq⟩ := adaptReadSize_eq conn len
  rw [eq]

theorem growBuffer_fits (conn : Conn) : (growBuffer conn).readSize ≤ (growBuffer conn).readBuffCap ∧
    conn.readBuffCap ≤ (growBuffer conn).readBuffCap := by
  unfold growBuffer
  split
  · rename_i small
    exact ⟨Nat.le_refl _, Nat.le_of_lt small⟩
  · rename_i large
    exact ⟨Nat.le_of_not_lt large, Nat.le_refl _⟩

/-- A round keeps the ladder and leaves the buffer that it has read into. -/
theorem readRound_ladder (ladder : Ladder conn.readSize) (outcome : ReadOutcome) :
    Ladder (conn.readRound outcome).2.readSize ∧
      (conn.readRound outcome).2.readBuffCap = conn.readCall.cap := by
  have grown : Ladder (growBuffer conn).readSize := by
    rw [SocketServer.growBuffer_readSize]
    exact ladder
  unfold readRound
  cases outcome with
  | data bytes =>
    dsimp only
    split
    · exact ⟨ladder_adaptReadSize grown _, adaptReadSize_readBuffCap ..⟩
    · exact ⟨grown, rfl⟩
  | eof | error | eagain | eintr => exact ⟨grown, rfl⟩

/-- The calls are within the ladder and fit the buffer, whose capacity goes from `before` up to
`after`. -/
structure Fits (before : Nat) (calls : List ReadCall) (after : Nat) : Prop where
  bounds : ∀ call ∈ calls, readBufferMin ≤ call.size ∧ call.size ≤ readBufferMax
  fits : ∀ call ∈ calls, call.size ≤ call.cap
  grows : (before :: (calls.map ReadCall.cap ++ [after])).Pairwise (· ≤ ·)

theorem Fits.append {before between after : Nat} {calls calls' : List ReadCall}
    (h : Fits before calls between) (h' : Fits between calls' after) :
    Fits before (calls ++ calls') after := by
  refine ⟨?_, ?_, ?_⟩
  · exact fun call mem => (List.mem_append.mp mem).elim (h.bounds call) (h'.bounds call)
  · exact fun call mem => (List.mem_append.mp mem).elim (h.fits call) (h'.fits call)
  · have first := h.grows
    rw [← List.cons_append, List.pairwise_append] at first
    obtain ⟨sorted, -, below⟩ := first
    obtain ⟨above, sorted'⟩ := List.pairwise_cons.mp h'.grows
    rw [List.map_append, List.append_assoc, ← List.cons_append]
    refine List.pairwise_append.mpr ⟨sorted, sorted', fun cap mem cap' mem' => ?_⟩
    exact (below cap mem between (List.mem_singleton.mpr rfl)).trans (above cap' mem')

theorem fits_nil (cap : Nat) : Fits cap [] cap := by
  refine ⟨List.forall_mem_nil _, List.forall_mem_nil _, ?_⟩
  simp

/-- The call of a round. -/
theorem fits_readCall (ladder : Ladder conn.readSize) :
    Fits conn.readBuffCap [conn.readCall] conn.readCall.cap := by
  obtain ⟨fits, grows⟩ := growBuffer_fits conn
  have size : conn.readCall.size = conn.readSize := SocketServer.growBuffer_readSize conn
  refine ⟨?_, ?_, ?_⟩
  · rw [List.forall_mem_singleton, size]
    exact ladder_bounds ladder
  · exact List.forall_mem_singleton.mpr fits
  · have grows : conn.readBuffCap ≤ conn.readCall.cap := grows
    simpa using grows

/-- One `ReadData`: by induction on the results of its reads. -/
theorem readData_fits (ladder : Ladder conn.readSize) (outcomes : List ReadOutcome) :
    Ladder (conn.readData outcomes).2.readSize ∧
      Fits conn.readBuffCap (conn.readData outcomes).1 (conn.readData outcomes).2.readBuffCap := by
  induction outcomes generalizing conn with
  | nil =>
    obtain ⟨ladder', cap⟩ := readRound_ladder ladder .eagain
    refine ⟨ladder', ?_⟩
    rw [readData, cap]
    exact fits_readCall ladder
  | cons outcome outcomes ih =>
    obtain ⟨ladder', cap⟩ := readRound_ladder ladder outcome
    unfold readData
    rcases round : conn.readRound outcome with ⟨more, next⟩
    rw [round] at ladder' cap
    dsimp only at ladder' cap
    have first := fits_readCall ladder
    rw [← cap] at first
    cases more with
    | false => exact ⟨ladder', first⟩
    | true =>
      obtain ⟨ladder'', rest⟩ := ih ladder'
      exact ⟨ladder'', first.append rest⟩

theorem reading_fits {tr : List (List ReadCall)} (run : reading.Run conn tr) :
    Ladder conn.readSize ∧ Fits 0 tr.flatten conn.readBuffCap := by
  induction run with
  | init start =>
    refine ⟨⟨0, by omega, start.1⟩, ?_⟩
    rw [start.2]
    exact fits_nil 0
  | step run step ih =>
    rw [List.flatten_concat]
    cases step with
    | readData outcomes =>
      obtain ⟨ladder, calls⟩ := readData_fits ih.1 outcomes
      exact ⟨ladder, ih.2.append calls⟩
    | other readSize readBuffCap =>
      rw [readSize, readBuffCap, List.append_nil]
      exact ih

/-- Over any number of calls of `ReadData`, the size stays between the minimum and the maximum, every
read fits the buffer, and the capacity never shrinks. -/
theorem reading_bounded {tr : List (List ReadCall)} (run : reading.Run conn tr) :
    (readBufferMin ≤ conn.readSize ∧ conn.readSize ≤ readBufferMax) ∧
      Fits 0 tr.flatten conn.readBuffCap :=
  ⟨ladder_bounds (reading_fits run).1, (reading_fits run).2⟩

/-- A connection reads three bytes, and then nothing. -/
theorem reading_bounded_short :
    Fits 0 [⟨8192, 8192⟩, ⟨8192, 8192⟩] 8192 := by
  have start : reading.Run { type := .client, serviceId := 1 } [] := .init ⟨rfl, rfl⟩
  have first := start.step (.readData _ [.data [1, 2, 3]])
  exact (reading_bounded (first.step (.readData _ [.eagain]))).2

end Conn

end Starnet
