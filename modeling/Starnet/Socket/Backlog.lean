import Starnet.Socket.Slot
import Mathlib.Algebra.BigOperators.Group.List.Basic

/-! The counter `wbSize` of a connection. It is raised when a message is queued and lowered by the
total that a flush writes, and equals the number of bytes that the two queues hold. -/

namespace Starnet

/-- The bytes of the queued objects that are not written yet. -/
def left (lst : List WriteObject) : Nat := (lst.map fun obj => obj.len - obj.start).sum

/-- An object in a queue has bytes that are not written, or is empty. -/
def WriteObject.Unwritten (obj : WriteObject) : Prop := obj.start < obj.len ∨ obj.len = 0

/-- The counter of a write buffer equals what its queues hold. -/
structure ConnWriteBuffer.Accounted (wb : ConnWriteBuffer) : Prop where
  size : wb.wbSize = left (wb.objs ++ wb.low)
  unwritten : ∀ obj ∈ wb.objs ++ wb.low, obj.Unwritten

@[simp] theorem left_nil : left [] = 0 := rfl

@[simp] theorem left_cons (obj : WriteObject) (lst : List WriteObject) :
    left (obj :: lst) = obj.len - obj.start + left lst := List.sum_cons

@[simp] theorem left_append (lst lst' : List WriteObject) :
    left (lst ++ lst') = left lst + left lst' := by
  rw [left, List.map_append, List.sum_append]
  rfl

/-! ### One call -/

/-- What the loop of `OnWriteable` adds to `written` is what it takes from the queue. -/
theorem writeAll_left (queues : List WriteObject → List WriteObject × List WriteObject) :
    ∀ (lst : List WriteObject) {written : Nat} {io : WriteIo} {lst' : List WriteObject}
      {written' : Nat} {io' : WriteIo},
      writeAll queues lst written io = (lst', written', io') →
      (∀ obj ∈ lst, obj.Unwritten) →
      written' + left lst' = written + left lst ∧ ∀ obj ∈ lst', obj.Unwritten
  | [], _, _, _, _, _, eq, unwritten => by
    obtain ⟨rfl, rfl, -⟩ := by simpa only [writeAll, Prod.mk.injEq] using eq
    exact ⟨rfl, unwritten⟩
  | obj :: others, written, io, _, _, _, eq, unwritten => by
    have rest : ∀ obj ∈ others, obj.Unwritten := fun obj mem =>
      unwritten obj (List.mem_cons_of_mem _ mem)
    rcases writeAll_cons queues obj others written io with
      ⟨answers, full⟩ | ⟨front, k, answers, msg, start, part, stop⟩
    · rw [full] at eq
      obtain ⟨sum, unwritten'⟩ := writeAll_left queues others eq rest
      refine ⟨?_, unwritten'⟩
      rw [sum, left_cons]
      omega
    · rw [stop] at eq
      obtain ⟨rfl, rfl, -⟩ := by simpa only [Prod.mk.injEq] using eq
      have same : front.len = obj.len := by rw [WriteObject.len, msg, WriteObject.len]
      have first := unwritten obj (List.mem_cons_self ..)
      have length := obj.rest_length
      rw [WriteObject.Unwritten] at first
      refine ⟨?_, fun obj' mem => ?_⟩
      · rw [left_cons, left_cons, same, start]
        omega
      · rcases List.mem_cons.mp mem with rfl | mem
        · rw [WriteObject.Unwritten, same, start]
          omega
        · exact rest obj' mem

namespace ConnWriteBuffer

variable {wb : ConnWriteBuffer}

/-- The variable `written` of `OnWriteable` when it is subtracted from `wbSize`. -/
def flushed (wb : ConnWriteBuffer) (io : WriteIo) : Nat :=
  let (objs, written, io) := writeAll (fun lst => (lst, wb.low)) wb.objs 0 io
  if objs.isEmpty && !wb.low.isEmpty then
    (writeAll (fun lst => (objs, lst)) wb.low written io).2.1
  else written

/-- `OnWriteable` subtracts `written`, clamped to `wbSize`. -/
theorem flush_wbSize (wb : ConnWriteBuffer) (io : WriteIo) :
    (wb.flush io).1.wbSize =
      if wb.flushed io > 0 then
        wb.wbSize - (if wb.flushed io > wb.wbSize then wb.wbSize else wb.flushed io)
      else wb.wbSize := by
  rcases high : writeAll (fun lst => (lst, wb.low)) wb.objs 0 io with ⟨objs, written, io₁⟩
  simp only [flush, flushed, high]
  by_cases lowTurn : (objs.isEmpty && !wb.low.isEmpty) = true
  · rw [if_pos lowTurn, if_pos lowTurn]
    rcases writeAll (fun lst => (objs, lst)) wb.low written io₁ with ⟨low, written', io₂⟩
    cases low with
    | nil => rfl
    | cons obj low => rfl
  · rw [if_neg lowTurn, if_neg lowTurn]

/-- What a flush writes is what it takes from the queues. -/
theorem Accounted.flushed (h : wb.Accounted) (io : WriteIo) :
    wb.flushed io + left ((wb.flush io).1.objs ++ (wb.flush io).1.low) = wb.wbSize ∧
      ∀ obj ∈ (wb.flush io).1.objs ++ (wb.flush io).1.low, obj.Unwritten := by
  have high : ∀ obj ∈ wb.objs, obj.Unwritten := fun obj mem =>
    h.unwritten obj (List.mem_append_left _ mem)
  have low : ∀ obj ∈ wb.low, obj.Unwritten := fun obj mem =>
    h.unwritten obj (List.mem_append_right _ mem)
  have size := h.size
  rw [left_append] at size
  rcases first : writeAll (fun lst => (lst, wb.low)) wb.objs 0 io with ⟨objs, written, io₁⟩
  obtain ⟨sum, unwritten⟩ := writeAll_left _ wb.objs first high
  simp only [ConnWriteBuffer.flushed, flush, first]
  by_cases lowTurn : (objs.isEmpty && !wb.low.isEmpty) = true
  · rw [if_pos lowTurn, if_pos lowTurn]
    rcases second : writeAll (fun lst => (objs, lst)) wb.low written io₁ with ⟨lows, written', io₂⟩
    obtain ⟨sumLow, unwrittenLow⟩ := writeAll_left _ wb.low second low
    cases lows with
    | nil =>
      refine ⟨?_, by simpa using unwritten⟩
      rw [left_nil] at sumLow
      dsimp only
      rw [List.append_nil]
      omega
    | cons obj lows =>
      refine ⟨?_, fun obj' mem => ?_⟩
      · dsimp only
        rw [List.append_assoc, List.singleton_append, left_append]
        omega
      · rw [List.append_assoc, List.singleton_append] at mem
        rcases List.mem_append.mp mem with mem | mem
        · exact unwritten obj' mem
        · exact unwrittenLow obj' mem
  · rw [if_neg lowTurn, if_neg lowTurn]
    refine ⟨?_, fun obj mem => ?_⟩
    · dsimp only
      rw [left_append]
      omega
    · rcases List.mem_append.mp mem with mem | mem
      · exact unwritten obj mem
      · exact low obj mem

/-- The clamp takes no effect. -/
theorem Accounted.subtracts (h : wb.Accounted) (io : WriteIo) :
    wb.flushed io ≤ wb.wbSize ∧ (wb.flush io).1.wbSize = wb.wbSize - wb.flushed io := by
  have sum := (h.flushed io).1
  have bound : wb.flushed io ≤ wb.wbSize := by omega
  refine ⟨bound, ?_⟩
  rw [flush_wbSize]
  split_ifs <;> omega

theorem Accounted.flush (h : wb.Accounted) (io : WriteIo) : (wb.flush io).1.Accounted := by
  obtain ⟨sum, unwritten⟩ := h.flushed io
  refine ⟨?_, unwritten⟩
  rw [(h.subtracts io).2]
  omega

/-- The account depends on the counter and the queues only. -/
theorem Accounted.congr {wb' : ConnWriteBuffer} (h : wb.Accounted) (objs : wb'.objs = wb.objs)
    (low : wb'.low = wb.low) (size : wb'.wbSize = wb.wbSize) : wb'.Accounted := by
  constructor
  · rw [size, objs, low]
    exact h.size
  · rw [objs, low]
    exact h.unwritten

theorem Accounted.warn (h : wb.Accounted) : wb.warn.1.Accounted := by
  unfold ConnWriteBuffer.warn
  split
  · exact h.congr rfl rfl rfl
  · exact h

/-- An object is queued, and the counter raised by its bytes. -/
theorem Accounted.enqueue {wb' : ConnWriteBuffer} (h : wb.Accounted) (obj : WriteObject)
    (unwritten : obj.Unwritten) (queues : (wb'.objs ++ wb'.low).Perm (obj :: (wb.objs ++ wb.low)))
    (size : wb'.wbSize = wb.wbSize + (obj.len - obj.start)) : wb'.Accounted := by
  constructor
  · rw [size, h.size, left, left, (queues.map _).sum_eq, List.map_cons, List.sum_cons, Nat.add_comm]
  · intro obj' mem
    rcases List.mem_cons.mp (queues.subset mem) with rfl | mem
    · exact unwritten
    · exact h.unwritten obj' mem

theorem Accounted.send (h : wb.Accounted) (msg : Submission) (io : WriteIo) :
    (wb.send msg io).1.Accounted := by
  have fresh : (WriteObject.whole msg).Unwritten := by
    rw [WriteObject.Unwritten, or_comm]
    exact Nat.eq_zero_or_pos _
  unfold ConnWriteBuffer.send
  split
  · obtain ⟨k, io', -, ⟨-, eq⟩ | ⟨obj, same, start, part, eq⟩⟩ :=
      wb.entireWriteWhenEmpty_cases msg io
    · rw [eq]
      exact h
    · rw [eq]
      have len : obj.len = msg.buff.length := by rw [WriteObject.len, same]
      refine h.enqueue obj ?_ ?_ (by rw [len, start])
      · rw [WriteObject.Unwritten, len, start]
        omega
      · rw [List.append_assoc]
        exact List.perm_middle
  · unfold entireWriteWhenNotEmpty
    split
    · refine h.enqueue _ fresh ?_ rfl
      rw [← List.append_assoc]
      exact (List.perm_append_singleton _ _)
    · refine h.enqueue _ fresh ?_ rfl
      rw [List.append_assoc]
      exact List.perm_middle

end ConnWriteBuffer

/-! ### Whole runs -/

theorem Slot.accounted_step {P : Slot → Prop} {a b : Slot} (h : a.wb.Accounted)
    (step : Slot.Step P a b) : b.wb.Accounted := by
  have empty : ConnWriteBuffer.Accounted {} := ⟨rfl, by simp⟩
  cases step with
  | stay | openFd | read | pause | finish => exact h
  | manage conn k free sent calls events => exact h
  | drop conn buffer =>
    rw [Slot.wb, buffer]
    exact empty
  | @send conn wb arm io low buff writes managed sends =>
    have sent := h.send ⟨conn.sent.length, low, buff⟩ ⟨writes, conn.calls⟩
    rw [sends] at sent
    exact sent.warn
  | @flush conn wb io socket writes managed flushes kept drained =>
    have flushed := h.flush ⟨writes, conn.calls⟩
    rw [flushes] at flushed
    exact flushed
  | @close wb buffer =>
    rw [Slot.wb, buffer] at h
    exact h.congr rfl rfl rfl

theorem accounted_of_run {s : SocketServer} {tr : List SocketOp} (run : socketServer.Run s tr)
    (fd : Int32) : (s.slot fd).wb.Accounted := by
  have inv : ∀ fd, (s.slot fd).Managed ∧ (s.slot fd).wb.Accounted := by
    refine run.stateInvariant
      (P := fun s => ∀ fd, (s.slot fd).Managed ∧ (s.slot fd).wb.Accounted) ?_ ?_
    · rintro _ rfl fd
      exact ⟨Slot.Managed.initial, rfl, by simp [Slot.wb, SocketServer.initial]⟩
    · intro s op s' before step
      exact SocketServer.step_slots (P := fun _ => True) (I := fun a => a.wb.Accounted) step
        (fun _ _ _ inv step => Slot.accounted_step inv step) (fun _ => trivial) before
  exact (inv fd).2

/-- In every run, after every call of the engine and every event, the counter of a write buffer is
the number of bytes that its queues hold, each queued object has bytes left or is empty, and a flush
subtracts at most the counter, whatever the kernel answers. -/
theorem wbSize_exact {s : SocketServer} {tr : List SocketOp} (run : socketServer.Run s tr)
    {fd : Int32} {wb : ConnWriteBuffer} (buffer : s.writeBuffers fd = some wb) :
    wb.wbSize = left (wb.objs ++ wb.low) ∧
      (∀ obj ∈ wb.objs ++ wb.low, obj.start < obj.len ∨ obj.len = 0) ∧
      ∀ io, wb.flushed io ≤ wb.wbSize ∧
        (wb.flush io).1.wbSize = wb.wbSize - wb.flushed io := by
  have accounted := accounted_of_run run fd
  rw [Slot.wb, SocketServer.slot_buffer, buffer] at accounted
  exact ⟨accounted.size, accounted.unwritten, accounted.subtracts⟩

/-- A direct write and a flush each accept a part of a message, and a second message waits. -/
theorem wbSize_exact_two_parts :
    let s₁ := SocketServer.initial.connect 5 7 (some [])
    let s₂ := (s₁.sendBuffer 5 [1, 2, 3, 4] false [.wrote 1]).2
    let s₃ := (s₂.sendBuffer 5 [5, 6] true []).2
    let s₄ := s₃.onRW 5 false true { writes := [.wrote 2] }
    ∃ wb, s₄.writeBuffers 5 = some wb ∧ wb.wbSize = 3 ∧
      wb.wbSize = left (wb.objs ++ wb.low) ∧
      (∀ obj ∈ wb.objs ++ wb.low, obj.start < obj.len ∨ obj.len = 0) ∧
      ∀ io, wb.flushed io ≤ wb.wbSize ∧
        (wb.flush io).1.wbSize = wb.wbSize - wb.flushed io := by
  intro s₁ s₂ s₃ s₄
  have step₁ : SocketServer.Step .initial (.connect 5 7 (some [])) s₁ := .connect rfl
  have step₂ : s₁.Step (.sendBuffer 5 [1, 2, 3, 4] false [.wrote 1]) s₂ := .sendBuffer ..
  have step₃ : s₂.Step (.sendBuffer 5 [5, 6] true []) s₃ := .sendBuffer ..
  have step₄ : s₃.Step (.onRW 5 false true { writes := [.wrote 2] }) s₄ :=
    .onRW (show s₃.conns 5 = some ((s₃.conns 5).get rfl) from rfl) (by decide)
  have run₀ : socketServer.Run SocketServer.initial [] := .init rfl
  have run₄ := (((run₀.step step₁).step step₂).step step₃).step step₄
  have buffer : s₄.writeBuffers 5 = some ((s₄.writeBuffers 5).get rfl) := rfl
  exact ⟨_, buffer, by decide, wbSize_exact run₄ buffer⟩

end Starnet
