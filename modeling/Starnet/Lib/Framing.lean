import Mathlib.Data.List.Basic

/-! Streams of frames. A frame is two header symbols, which give the length of the payload, and the
payload. Parsing a stream in pieces, with the incomplete frame at the end of each piece kept for the
next one, gives the frames of the whole stream. -/

namespace Framing

variable {α : Type*} (size : α → α → Nat)

theorem length_drop_lt (hi lo : α) (rest : List α) (n : Nat) :
    (rest.drop n).length < (hi :: lo :: rest).length := by
  rw [List.length_drop, List.length_cons, List.length_cons]
  omega

/-- The payloads of the complete frames of a stream, and the bytes of the incomplete frame that
follows them. -/
def parse : List α → List (List α) × List α
  | hi :: lo :: rest =>
    if size hi lo ≤ rest.length then
      let next := parse (rest.drop (size hi lo))
      (rest.take (size hi lo) :: next.1, next.2)
    else ([], hi :: lo :: rest)
  | stream => ([], stream)
termination_by stream => stream.length
decreasing_by exact length_drop_lt ..

/-- The payloads of the complete frames of a stream. -/
def payloads (stream : List α) : List (List α) := (parse size stream).1

/-- The bytes of a stream after its complete frames. -/
def leftover (stream : List α) : List α := (parse size stream).2

variable {size}

@[simp] theorem parse_nil : parse size [] = ([], []) := by simp [parse]

@[simp] theorem parse_singleton (b : α) : parse size [b] = ([], [b]) := by simp [parse]

theorem parse_complete {hi lo : α} {rest : List α} (h : size hi lo ≤ rest.length) :
    parse size (hi :: lo :: rest) =
      (rest.take (size hi lo) :: (parse size (rest.drop (size hi lo))).1,
        (parse size (rest.drop (size hi lo))).2) := by
  rw [parse]
  simp [h]

theorem parse_incomplete {hi lo : α} {rest : List α} (h : rest.length < size hi lo) :
    parse size (hi :: lo :: rest) = ([], hi :: lo :: rest) := by
  rw [parse]
  simp [Nat.not_le.mpr h]

/-- A payload with its header in front of a stream. -/
theorem parse_frame {hi lo : α} {payload : List α} (h : size hi lo = payload.length)
    (stream : List α) : parse size (hi :: lo :: payload ++ stream) =
      (payload :: (parse size stream).1, (parse size stream).2) := by
  have complete : size hi lo ≤ (payload ++ stream).length := by
    rw [h, List.length_append]
    omega
  rw [List.cons_append, List.cons_append, parse_complete complete, h, List.take_left,
    List.drop_left]

/-- A stream is parsed piece by piece. -/
theorem parse_append (stream piece : List α) : parse size (stream ++ piece) =
    ((parse size stream).1 ++ (parse size ((parse size stream).2 ++ piece)).1,
      (parse size ((parse size stream).2 ++ piece)).2) := by
  induction stream using parse.induct size with
  | case1 hi lo rest complete ih =>
    have longer : size hi lo ≤ (rest ++ piece).length := by
      rw [List.length_append]
      omega
    rw [parse_complete complete, List.cons_append, List.cons_append, parse_complete longer,
      List.take_append_of_le_length complete, List.drop_append_of_le_length complete, ih]
    rfl
  | case2 hi lo rest incomplete =>
    rw [parse_incomplete (Nat.not_le.mp incomplete)]
    rfl
  | case3 stream short =>
    have all : parse size stream = ([], stream) := by
      rw [parse]
      exact short
    rw [all]
    rfl

theorem payloads_append (stream piece : List α) : payloads size (stream ++ piece) =
    payloads size stream ++ payloads size (leftover size stream ++ piece) := by
  rw [payloads, parse_append]
  rfl

theorem leftover_append (stream piece : List α) : leftover size (stream ++ piece) =
    leftover size (leftover size stream ++ piece) := by
  rw [leftover, parse_append]
  rfl

/-- The frames of a list of payloads are parsed back. -/
theorem parse_flatten (frame : List α → List α) {msgs : List (List α)}
    (h : ∀ msg ∈ msgs, ∃ hi lo, frame msg = hi :: lo :: msg ∧ size hi lo = msg.length) :
    parse size (msgs.map frame).flatten = (msgs, []) := by
  induction msgs with
  | nil => exact parse_nil
  | cons msg msgs ih =>
    obtain ⟨hi, lo, eq, length⟩ := h msg (List.mem_cons_self ..)
    rw [List.map_cons, List.flatten_cons, eq, parse_frame length,
      ih fun msg mem => h msg (List.mem_cons_of_mem _ mem)]

end Framing
