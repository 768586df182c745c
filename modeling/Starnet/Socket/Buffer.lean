import Mathlib.Data.List.Basic

/-! The write buffer of a connection (`starnet_socket_server.h` and `starnet_socket_server.cpp`).
The kernel answers each `write` from a list, and every call of `write` is logged with the queues as
they are at the call. -/

namespace Starnet

/-- A message that `SendBuffer` accepts: its number on the connection, the argument `low` and its
bytes. -/
structure Submission where
  seq : Nat
  low : Bool
  buff : List UInt8
  deriving DecidableEq, Repr

/-- The bytes of a message, each with the number of the message. -/
def Submission.octets (msg : Submission) : List (Nat × UInt8) :=
  msg.buff.map fun byte => (msg.seq, byte)

/-- `WriteObject`. Its `buff` is that of `msg`, and `len` is the length of this buffer. -/
structure WriteObject where
  msg : Submission
  start : Nat
  bound : start ≤ msg.buff.length
  deriving DecidableEq, Repr

namespace WriteObject

def len (obj : WriteObject) : Nat := obj.msg.buff.length

/-- The `len - start` bytes from `buff + start` on. -/
def rest (obj : WriteObject) : List UInt8 := obj.msg.buff.drop obj.start

theorem rest_length (obj : WriteObject) : obj.rest.length = obj.len - obj.start := by
  simp [rest, len]

/-- An object of which nothing is written. -/
def whole (msg : Submission) : WriteObject := ⟨msg, 0, Nat.zero_le _⟩

end WriteObject

/-- `ConnWriteBuffer` without its lock. -/
structure ConnWriteBuffer where
  objs : List WriteObject := []
  low : List WriteObject := []
  isClosing : Bool := false
  wbSize : Nat := 0
  warnSize : Nat := 0
  deriving DecidableEq, Repr

/-- What a call of `write` returns: a count, or -1 with `errno`. -/
inductive WriteOutcome
  | wrote (n : Nat)
  | eagain
  | eintr
  | error
  deriving DecidableEq, Repr

namespace WriteOutcome

/-- `write` accepts at most the bytes it is given. -/
def clip (len : Nat) : WriteOutcome → WriteOutcome
  | wrote n => wrote (min n len)
  | outcome => outcome

/-- The number of bytes accepted. -/
def count : WriteOutcome → Nat
  | wrote n => n
  | _ => 0

theorem count_clip_le (outcome : WriteOutcome) (len : Nat) : (outcome.clip len).count ≤ len := by
  cases outcome with
  | wrote n => exact Nat.min_le_right n len
  | eagain | eintr | error => exact Nat.zero_le len

/-- A failure after which `EntireWriteWhenEmpty` does not keep a message with bytes. -/
def drops : WriteOutcome → Bool
  | wrote n => n = 0
  | eagain => false
  | eintr | error => true

end WriteOutcome

/-- A call of `write`: the message, the bytes accepted, and the queues at the call. -/
structure WriteCall where
  msg : Submission
  accepted : List UInt8
  objs : List WriteObject
  low : List WriteObject
  deriving DecidableEq, Repr

/-- The bytes that the kernel accepted in a list of calls, each with the number of its message. -/
def wire (calls : List WriteCall) : List (Nat × UInt8) :=
  calls.flatMap fun call => call.accepted.map fun byte => (call.msg.seq, byte)

/-- The answers of the kernel to the next calls of `write`, and the calls made so far. -/
structure WriteIo where
  answers : List WriteOutcome
  calls : List WriteCall
  deriving DecidableEq, Repr

/-- `write(fd, s, len)`; without an answer the socket would block. -/
def WriteIo.write (io : WriteIo) (msg : Submission) (s : List UInt8)
    (queues : List WriteObject × List WriteObject) : WriteOutcome × WriteIo :=
  let answer := (io.answers.headD .eagain).clip s.length
  (answer, ⟨io.answers.tail, io.calls ++ [⟨msg, s.take answer.count, queues.1, queues.2⟩]⟩)

/-- A call of `write` on `s`, a part of `msg`, that accepts `k` bytes. -/
def writeCall (msg : Submission) (s : List UInt8) (k : Nat)
    (queues : List WriteObject × List WriteObject) : WriteCall :=
  ⟨msg, s.take k, queues.1, queues.2⟩

theorem WriteIo.write_eq {io : WriteIo} {msg : Submission} {s : List UInt8}
    {queues : List WriteObject × List WriteObject} {outcome : WriteOutcome}
    (answer : (io.answers.headD .eagain).clip s.length = outcome) :
    io.write msg s queues =
      (outcome, ⟨io.answers.tail, io.calls ++ [writeCall msg s outcome.count queues]⟩) := by
  rw [← answer]
  rfl

namespace ConnWriteBuffer

/-- The test of `PauseRead` and `ResumeRead`. -/
def hasData (wb : ConnWriteBuffer) : Bool := !wb.objs.isEmpty || !wb.low.isEmpty

/-- `EntireWriteWhenEmpty`, and whether it calls `ModifyEvent(fd, true)`. -/
def entireWriteWhenEmpty (wb : ConnWriteBuffer) (msg : Submission) (io : WriteIo) :
    ConnWriteBuffer × Bool × WriteIo :=
  match io.write msg msg.buff (wb.objs, wb.low) with
  | (.wrote n, io) =>
    if n = msg.buff.length then (wb, false, io)
    else if h : 0 < n ∧ n < msg.buff.length then
      ({ wb with
          objs := wb.objs ++ [⟨msg, n, Nat.le_of_lt h.2⟩]
          wbSize := wb.wbSize + (msg.buff.length - n) }, true, io)
    else (wb, false, io)
  | (.eagain, io) =>
    ({ wb with
        objs := wb.objs ++ [WriteObject.whole msg]
        wbSize := wb.wbSize + msg.buff.length }, true, io)
  | (_, io) => (wb, false, io)

/-- `EntireWriteWhenNotEmpty`. -/
def entireWriteWhenNotEmpty (wb : ConnWriteBuffer) (msg : Submission) : ConnWriteBuffer :=
  if msg.low then
    { wb with
      low := wb.low ++ [WriteObject.whole msg]
      wbSize := wb.wbSize + msg.buff.length }
  else
    { wb with
      objs := wb.objs ++ [WriteObject.whole msg]
      wbSize := wb.wbSize + msg.buff.length }

/-- The choice of `SendBuffer` on a buffer that is not closing. -/
def send (wb : ConnWriteBuffer) (msg : Submission) (io : WriteIo) :
    ConnWriteBuffer × Bool × WriteIo :=
  if wb.objs.isEmpty && wb.low.isEmpty then wb.entireWriteWhenEmpty msg io
  else (wb.entireWriteWhenNotEmpty msg, false, io)

/-- `WARNING_SIZE`. -/
def warningSize : Nat := 1 <<< 20

/-- The warning of `SendBuffer`: the new threshold, and the size of the message if one is sent. -/
def warn (wb : ConnWriteBuffer) : ConnWriteBuffer × Option Nat :=
  if wb.wbSize ≥ warningSize ∧ wb.wbSize ≥ wb.warnSize then
    ({ wb with warnSize := if wb.warnSize = 0 then warningSize * 2 else wb.warnSize * 2 },
      some ((wb.wbSize + 1023) / 1024))
  else (wb, none)

end ConnWriteBuffer

/-- `WriteFrontFromList`: the result, the list and `written`. `queues` gives the two queues of the
connection from the content of the list. -/
def writeFrontFromList (queues : List WriteObject → List WriteObject × List WriteObject)
    (lst : List WriteObject) (written : Nat) (io : WriteIo) :
    Int × List WriteObject × Nat × WriteIo :=
  match lst with
  | [] => (0, [], written, io)
  | obj :: others =>
    match io.write obj.msg obj.rest (queues (obj :: others)) with
    | (.wrote n, io) =>
      if n = obj.len - obj.start then (1, others, written + (obj.len - obj.start), io)
      else if h : 0 < n ∧ n < obj.len - obj.start then
        (0, ⟨obj.msg, obj.start + n, Nat.add_le_of_le_sub' obj.bound (Nat.le_of_lt h.2)⟩ :: others,
          written + n, io)
      else (-1, obj :: others, written, io)
    | (.eagain, io) => (0, obj :: others, written, io)
    | (_, io) => (-1, obj :: others, written, io)

/-- `while(WriteFrontFromList(fd, lst, written) == 1)`. The list that is left after a complete write
is that without its front. -/
def writeAll (queues : List WriteObject → List WriteObject × List WriteObject) :
    List WriteObject → Nat → WriteIo → List WriteObject × Nat × WriteIo
  | [], written, io => ([], written, io)
  | obj :: others, written, io =>
    match writeFrontFromList queues (obj :: others) written io with
    | (1, _, written, io) => writeAll queues others written io
    | (_, lst, written, io) => (lst, written, io)

namespace ConnWriteBuffer

/-- `OnWriteable` under the locks. -/
def flush (wb : ConnWriteBuffer) (io : WriteIo) : ConnWriteBuffer × WriteIo :=
  let (objs, written, io) := writeAll (fun lst => (lst, wb.low)) wb.objs 0 io
  let (objs, low, written, io) :=
    if objs.isEmpty && !wb.low.isEmpty then
      match writeAll (fun lst => (objs, lst)) wb.low written io with
      | ([], written, io) => (objs, [], written, io)
      | (obj :: low, written, io) => (objs ++ [obj], low, written, io)
    else (objs, wb.low, written, io)
  let wbSize :=
    if written > 0 then wb.wbSize - (if written > wb.wbSize then wb.wbSize else written)
    else wb.wbSize
  ({ wb with objs, low, wbSize }, io)

end ConnWriteBuffer

/-! ### What one call of `write` does -/

/-- A count that `write` returns for `s`. -/
theorem WriteOutcome.le_of_clip {outcome : WriteOutcome} {len n : Nat}
    (answer : outcome.clip len = .wrote n) : n ≤ len := by
  have bound := count_clip_le outcome len
  rw [answer] at bound
  exact bound

/-- A failure, or a count of 0 for some bytes. -/
theorem WriteOutcome.drops_of_clip {outcome answer : WriteOutcome} {len : Nat}
    (clip : outcome.clip len = answer) (some : answer = .wrote 0 → 0 < len)
    (fails : answer.drops = true := by rfl) : outcome.drops = true := by
  subst clip
  cases outcome with
  | wrote n =>
    have zero : min n len = 0 := by simpa [clip, drops] using fails
    have := some (congrArg wrote zero)
    simpa [drops] using (by omega : n = 0)
  | eagain | eintr | error => exact fails

/-- `WriteFrontFromList` writes the rest of the front, or some of its first bytes. -/
theorem writeFrontFromList_cases
    (queues : List WriteObject → List WriteObject × List WriteObject) (obj : WriteObject)
    (others : List WriteObject) (written : Nat) (io : WriteIo) :
    (∃ answers, writeFrontFromList queues (obj :: others) written io =
      (1, others, written + (obj.len - obj.start), ⟨answers,
        io.calls ++ [writeCall obj.msg obj.rest obj.rest.length (queues (obj :: others))]⟩)) ∨
    ∃ (code : Int) (front : WriteObject) (k : Nat) (answers : List WriteOutcome),
      code ≠ 1 ∧ front.msg = obj.msg ∧ front.start = obj.start + k ∧
      (k = 0 ∨ k < obj.rest.length) ∧ writeFrontFromList queues (obj :: others) written io =
        (code, front :: others, written + k, ⟨answers,
          io.calls ++ [writeCall obj.msg obj.rest k (queues (obj :: others))]⟩) := by
  have len := obj.rest_length
  rcases answer : (io.answers.headD .eagain).clip obj.rest.length with n | _ | _ | _
  · simp only [writeFrontFromList, WriteIo.write_eq answer]
    by_cases full : n = obj.len - obj.start
    · rw [if_pos full, ← len]
      exact Or.inl ⟨_, by rw [WriteOutcome.count, full, len]⟩
    · rw [if_neg full]
      by_cases some : 0 < n ∧ n < obj.len - obj.start
      · rw [dif_pos some]
        exact Or.inr ⟨0, ⟨obj.msg, obj.start + n, _⟩, n, _, by decide, rfl, rfl,
          Or.inr (by omega), rfl⟩
      · rw [dif_neg some]
        have bound := WriteOutcome.le_of_clip answer
        have zero : n = 0 := by omega
        subst zero
        exact Or.inr ⟨-1, obj, 0, _, by decide, rfl, rfl, Or.inl rfl, rfl⟩
  · exact Or.inr ⟨0, obj, 0, _, by decide, rfl, rfl, Or.inl rfl, by
      rw [writeFrontFromList, WriteIo.write_eq answer]; rfl⟩
  · exact Or.inr ⟨-1, obj, 0, _, by decide, rfl, rfl, Or.inl rfl, by
      rw [writeFrontFromList, WriteIo.write_eq answer]; rfl⟩
  · exact Or.inr ⟨-1, obj, 0, _, by decide, rfl, rfl, Or.inl rfl, by
      rw [writeFrontFromList, WriteIo.write_eq answer]; rfl⟩

/-- The loop of `OnWriteable` writes the rest of the front and goes on, or stops after some of its
first bytes. -/
theorem writeAll_cons (queues : List WriteObject → List WriteObject × List WriteObject)
    (obj : WriteObject) (others : List WriteObject) (written : Nat) (io : WriteIo) :
    (∃ answers, writeAll queues (obj :: others) written io =
      writeAll queues others (written + (obj.len - obj.start)) ⟨answers,
        io.calls ++ [writeCall obj.msg obj.rest obj.rest.length (queues (obj :: others))]⟩) ∨
    ∃ (front : WriteObject) (k : Nat) (answers : List WriteOutcome),
      front.msg = obj.msg ∧ front.start = obj.start + k ∧ (k = 0 ∨ k < obj.rest.length) ∧
      writeAll queues (obj :: others) written io =
        (front :: others, written + k, ⟨answers,
          io.calls ++ [writeCall obj.msg obj.rest k (queues (obj :: others))]⟩) := by
  rw [writeAll]
  rcases writeFrontFromList_cases queues obj others written io with
    ⟨answers, full⟩ | ⟨code, front, k, answers, ne, msg, start, part, stop⟩
  · rw [full]
    exact Or.inl ⟨answers, rfl⟩
  · rw [stop]
    refine Or.inr ⟨front, k, answers, msg, start, part, ?_⟩
    split
    · rename_i one
      exact absurd (congrArg Prod.fst one) ne
    · rename_i left
      cases left
      rfl

/-- `EntireWriteWhenEmpty` writes the whole message, queues it after some of its first bytes, or
drops it. -/
theorem ConnWriteBuffer.entireWriteWhenEmpty_cases (wb : ConnWriteBuffer) (msg : Submission)
    (io : WriteIo) :
    ∃ (k : Nat) (io' : WriteIo),
      io'.calls = io.calls ++ [writeCall msg msg.buff k (wb.objs, wb.low)] ∧
      ((k = msg.buff.length ∨ k = 0 ∧ (io.answers.headD .eagain).drops = true) ∧
        wb.entireWriteWhenEmpty msg io = (wb, false, io') ∨
      ∃ obj : WriteObject, obj.msg = msg ∧ obj.start = k ∧
        (k = 0 ∨ k < msg.buff.length) ∧ wb.entireWriteWhenEmpty msg io =
          ({ wb with
              objs := wb.objs ++ [obj]
              wbSize := wb.wbSize + (msg.buff.length - k) }, true, io')) := by
  rcases answer : (io.answers.headD .eagain).clip msg.buff.length with n | _ | _ | _
  · simp only [entireWriteWhenEmpty, WriteIo.write_eq answer]
    refine ⟨n, ⟨io.answers.tail, _⟩, rfl, ?_⟩
    by_cases full : n = msg.buff.length
    · rw [if_pos full]
      exact Or.inl ⟨Or.inl full, rfl⟩
    · rw [if_neg full]
      by_cases some : 0 < n ∧ n < msg.buff.length
      · rw [dif_pos some]
        exact Or.inr ⟨_, rfl, rfl, Or.inr some.2, rfl⟩
      · rw [dif_neg some]
        have bound := WriteOutcome.le_of_clip answer
        have zero : n = 0 := by omega
        subst zero
        exact Or.inl ⟨Or.inr ⟨rfl, WriteOutcome.drops_of_clip answer (by omega)⟩, rfl⟩
  · refine ⟨0, ⟨io.answers.tail, _⟩, rfl, Or.inr ⟨WriteObject.whole msg, rfl, rfl, Or.inl rfl, ?_⟩⟩
    rw [entireWriteWhenEmpty, WriteIo.write_eq answer]
    rfl
  · refine ⟨0, ⟨io.answers.tail, _⟩, rfl, Or.inl ⟨Or.inr ⟨rfl, ?_⟩, ?_⟩⟩
    · exact WriteOutcome.drops_of_clip answer (by rintro ⟨⟩)
    · rw [entireWriteWhenEmpty, WriteIo.write_eq answer]
      rfl
  · refine ⟨0, ⟨io.answers.tail, _⟩, rfl, Or.inl ⟨Or.inr ⟨rfl, ?_⟩, ?_⟩⟩
    · exact WriteOutcome.drops_of_clip answer (by rintro ⟨⟩)
    · rw [entireWriteWhenEmpty, WriteIo.write_eq answer]
      rfl

/-- `OnWriteable` leaves the low queue as it is, or flushes it and raises its front. -/
theorem ConnWriteBuffer.flush_cases (wb : ConnWriteBuffer) (io : WriteIo) :
    ∃ objs written io₁, writeAll (fun lst => (lst, wb.low)) wb.objs 0 io = (objs, written, io₁) ∧
      ((objs = [] → wb.low = []) ∧ wb.flush io =
          ({ wb with objs, wbSize := wb.wbSize - written }, io₁) ∨
      objs = [] ∧ ∃ low written' io₂,
        writeAll (fun lst => ([], lst)) wb.low written io₁ = (low, written', io₂) ∧
        wb.flush io =
          ({ wb with
              objs := low.take 1
              low := low.tail
              wbSize := wb.wbSize - written' }, io₂)) := by
  have drained : ∀ written, (if written > 0 then
      wb.wbSize - (if written > wb.wbSize then wb.wbSize else written) else wb.wbSize) =
        wb.wbSize - written := by
    intro written
    split_ifs <;> omega
  rcases high : writeAll (fun lst => (lst, wb.low)) wb.objs 0 io with ⟨objs, written, io₁⟩
  refine ⟨objs, written, io₁, rfl, ?_⟩
  simp only [flush, high]
  by_cases lowTurn : (objs.isEmpty && !wb.low.isEmpty) = true
  · rw [if_pos lowTurn]
    obtain ⟨rfl, -⟩ : objs = [] ∧ wb.low ≠ [] := by simpa using lowTurn
    rcases writeAll (fun lst => ([], lst)) wb.low written io₁ with ⟨low, written', io₂⟩
    refine Or.inr ⟨rfl, low, written', io₂, rfl, ?_⟩
    cases low with
    | nil => simp only [drained, List.take_nil, List.tail_nil]
    | cons obj low =>
      simp only [drained, List.nil_append, List.take_succ_cons, List.take_zero,
        List.tail_cons]
  · rw [if_neg lowTurn]
    refine Or.inl ⟨fun empty => ?_, by simp only [drained]⟩
    simpa [empty] using lowTurn

end Starnet
