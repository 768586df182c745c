import Starnet.Socket.Backlog
import Starnet.Socket.Event

/-! The warnings of a backlog. The threshold `warnSize` is raised by every warning and never reset
while the connection is there, so it also holds in the episodes after the one it was raised in. -/

namespace Starnet

/-- The least `wbSize` at which `SendBuffer` posts the next `WARNING`. -/
def ConnWriteBuffer.need (wb : ConnWriteBuffer) : Nat := max warningSize wb.warnSize

/-- The `WARNING` messages posted for the connection. -/
def SocketServer.warnings (s : SocketServer) (fd : Int32) : Nat :=
  s.posted.countP fun m => m.1.subtype = .warning ∧ m.1.fd = fd

/-- A period in which `wbSize` is positive: whether a `SendBuffer` left at least `WARNING_SIZE` in
an earlier one of the connection and in this one, and the `wbSize` needed for each `WARNING`. -/
structure Episode where
  earlier : Bool := false
  high : Bool := false
  needs : List Nat := []
  deriving DecidableEq, Repr

namespace Episode

/-- The episode of `fd` after an operation. -/
def next (e : Episode) (fd : Int32) (s : SocketServer) (op : SocketOp) (s' : SocketServer) :
    Episode :=
  let size := (s'.slot fd).wb.wbSize
  if (s'.conns fd).isNone then {}
  else if size = 0 then { earlier := e.earlier || e.high }
  else
    match op with
    | .sendBuffer fd' _ _ _ =>
      if fd' = fd then
        { e with
          high := e.high || size ≥ ConnWriteBuffer.warningSize
          needs := e.needs ++ List.replicate (s'.warnings fd - s.warnings fd) (s.slot fd).wb.need }
      else e
    | _ => e

/-- A backlog of 1 MB has been announced, and the size needed for a warning starts from 1 MB and at
least doubles with each one. -/
structure Announced (e : Episode) (wb : ConnWriteBuffer) : Prop where
  announced : e.high = true → e.needs ≠ []
  first : (e.needs ++ [wb.need]).head? = some ConnWriteBuffer.warningSize
  doubles : (e.needs ++ [wb.need]).IsChain fun a b => 2 * a ≤ b

end Episode

/-- The engine with the episode of one descriptor. -/
def episodes (fd : Int32) : Transition.System (SocketServer × Episode) SocketOp where
  init p := p = (SocketServer.initial, {})
  step p op p' := p.1.Step op p'.1 ∧ p'.2 = p.2.next fd p.1 op p'.1

/-! ### One step -/

namespace ConnWriteBuffer

variable {wb : ConnWriteBuffer}

theorem warningSize_le_need (wb : ConnWriteBuffer) : warningSize ≤ wb.need := Nat.le_max_left ..

/-- `SendBuffer` warns from `need` on. -/
theorem warn_eq (wb : ConnWriteBuffer) :
    (wb.need ≤ wb.wbSize ∧ wb.warn.2.toList.length = 1 ∧ wb.warn.1.wbSize = wb.wbSize ∧
      wb.warn.1.warnSize = if wb.warnSize = 0 then warningSize * 2 else wb.warnSize * 2) ∨
    (wb.wbSize < wb.need ∧ wb.warn = (wb, none)) := by
  unfold warn
  split
  · rename_i reached
    exact Or.inl ⟨Nat.max_le.mpr reached, rfl, rfl, rfl⟩
  · rename_i below
    refine Or.inr ⟨?_, rfl⟩
    rw [need]
    omega

theorem warnSize_send (wb : ConnWriteBuffer) (msg : Submission) (io : WriteIo) :
    (wb.send msg io).1.warnSize = wb.warnSize := by
  unfold send
  split
  · obtain ⟨k, io', -, ⟨-, eq⟩ | ⟨obj, -, -, -, eq⟩⟩ := wb.entireWriteWhenEmpty_cases msg io
    · rw [eq]
    · rw [eq]
  · unfold entireWriteWhenNotEmpty
    split <;> rfl

theorem flush_sizes (wb : ConnWriteBuffer) (io : WriteIo) :
    (wb.flush io).1.warnSize = wb.warnSize ∧ (wb.flush io).1.wbSize ≤ wb.wbSize := by
  obtain ⟨objs, written, io₁, -, ⟨-, eq⟩ | ⟨-, low, written', io₂, -, eq⟩⟩ := wb.flush_cases io
  · rw [eq]
    exact ⟨rfl, Nat.sub_le ..⟩
  · rw [eq]
    exact ⟨rfl, Nat.sub_le ..⟩

end ConnWriteBuffer

namespace Episode

open ConnWriteBuffer (warningSize)

/-- How the threshold of a write buffer relates to the episodes of its connection. -/
structure Tracks (e : Episode) (wb : ConnWriteBuffer) : Prop where
  fresh : wb.warnSize = 0 ↔ e.earlier = false ∧ e.high = false
  raised : wb.warnSize = 0 ∨ 2 * warningSize ≤ wb.warnSize
  high : warningSize ≤ wb.wbSize → e.high = true
  idle : e.high = false → e.needs = []
  doubles : (e.needs ++ [wb.need]).IsChain fun a b => 2 * a ≤ b
  first : e.earlier = false → (e.needs ++ [wb.need]).head? = some warningSize
  later : e.earlier = true → ∃ n, (e.needs ++ [wb.need]).head? = some n ∧ 2 * warningSize ≤ n
  announced : e.earlier = false → e.high = true → e.needs ≠ []

variable {e : Episode} {wb wb' : ConnWriteBuffer}

theorem Tracks.need_eq (h : e.Tracks wb) :
    wb.warnSize = 0 ∧ wb.need = warningSize ∨
      2 * warningSize ≤ wb.warnSize ∧ wb.need = wb.warnSize := by
  rw [ConnWriteBuffer.need]
  rcases h.raised with zero | raised
  · exact Or.inl ⟨zero, by rw [zero, Nat.max_zero]⟩
  · exact Or.inr ⟨raised, Nat.max_eq_right (by omega)⟩

theorem Tracks.initial : Tracks {} {} := by
  constructor
  · simp
  · exact Or.inl rfl
  · exact fun size => absurd size (by decide)
  · exact fun _ => rfl
  · exact .singleton _
  · exact fun _ => rfl
  · simp
  · simp

/-- A new episode begins when the buffer is empty. -/
theorem Tracks.restart (h : e.Tracks wb) (warn : wb'.warnSize = wb.warnSize)
    (empty : wb'.wbSize = 0) : Tracks { earlier := e.earlier || e.high } wb' := by
  have need : wb'.need = wb.need := by rw [ConnWriteBuffer.need, warn, ConnWriteBuffer.need]
  have fresh : wb.warnSize = 0 ↔ (e.earlier || e.high) = false := by
    rw [h.fresh, Bool.or_eq_false_iff]
  constructor
  · rw [warn, fresh]
    simp
  · rw [warn]
    exact h.raised
  · rw [empty]
    exact fun size => absurd size (by decide)
  · exact fun _ => rfl
  · exact .singleton _
  · intro none
    rcases h.need_eq with ⟨-, eq⟩ | ⟨raised, -⟩
    · rw [need, eq]
      rfl
    · have zero := fresh.mpr none
      rw [zero] at raised
      exact absurd raised (by decide)
  · intro some
    rcases h.need_eq with ⟨zero, -⟩ | ⟨raised, eq⟩
    · rw [fresh.mp zero] at some
      contradiction
    · exact ⟨wb.need, by rw [need]; rfl, by rw [eq]; exact raised⟩
  · exact fun _ high => absurd high (by simp)

/-- The buffer does not grow. -/
theorem Tracks.lower (h : e.Tracks wb) (warn : wb'.warnSize = wb.warnSize)
    (size : wb'.wbSize ≤ wb.wbSize) : e.Tracks wb' := by
  have need : wb'.need = wb.need := by rw [ConnWriteBuffer.need, warn, ConnWriteBuffer.need]
  constructor
  · rw [warn]
    exact h.fresh
  · rw [warn]
    exact h.raised
  · exact fun large => h.high (large.trans size)
  · exact h.idle
  · rw [need]
    exact h.doubles
  · rw [need]
    exact h.first
  · rw [need]
    exact h.later
  · exact h.announced

/-- A message is queued, and the warning of `SendBuffer`. -/
theorem Tracks.send (h : e.Tracks wb) (warn : wb'.warnSize = wb.warnSize) :
    Tracks { e with
        high := e.high || wb'.warn.1.wbSize ≥ warningSize
        needs := e.needs ++ List.replicate wb'.warn.2.toList.length wb.need } wb'.warn.1 := by
  have need : wb'.need = wb.need := by rw [ConnWriteBuffer.need, warn, ConnWriteBuffer.need]
  have floor := wb.warningSize_le_need
  have pos : 0 < warningSize := by decide
  rcases wb'.warn_eq with ⟨reached, one, size, raised⟩ | ⟨below, none⟩
  · have high : (e.high || decide (wb'.warn.1.wbSize ≥ warningSize)) = true := by
      rw [size, decide_eq_true (by omega), Bool.or_true]
    have double : wb'.warn.1.warnSize = 2 * wb.need ∧ wb'.warn.1.need = 2 * wb.need := by
      have eq : wb'.warn.1.warnSize = 2 * wb.need := by
        rw [raised, warn]
        rcases h.need_eq with ⟨zero, eq⟩ | ⟨nonzero, eq⟩
        · rw [if_pos zero, eq, Nat.mul_comm]
        · rw [if_neg (by omega), eq, Nat.mul_comm]
      refine ⟨eq, ?_⟩
      rw [ConnWriteBuffer.need, eq]
      exact Nat.max_eq_right (by omega)
    have head : (e.needs ++ [wb.need] ++ [wb'.warn.1.need]).head? = (e.needs ++ [wb.need]).head? := by
      cases e.needs <;> rfl
    rw [high, one, List.replicate_one]
    constructor
    · refine ⟨fun zero => ?_, fun fresh => absurd fresh.2 (by simp)⟩
      omega
    · exact Or.inr (by omega)
    · exact fun _ => rfl
    · exact fun low => absurd low (by simp)
    · rw [List.isChain_append]
      refine ⟨h.doubles, .singleton _, ?_⟩
      intro a last b first
      rw [List.getLast?_concat] at last
      cases last
      cases first
      exact Nat.le_of_eq double.2.symm
    · rw [head]
      exact h.first
    · rw [head]
      exact h.later
    · exact fun _ _ => by simp
  · have low : wb.warnSize = 0 → ¬ warningSize ≤ wb'.wbSize := by
      intro zero
      rcases h.need_eq with ⟨-, eq⟩ | ⟨raised, -⟩
      · omega
      · omega
    rw [none]
    dsimp only
    rw [Option.toList_none, List.length_nil, List.replicate_zero, List.append_nil]
    constructor
    · rw [warn, Bool.or_eq_false_iff, decide_eq_false_iff_not]
      exact ⟨fun zero => ⟨(h.fresh.mp zero).1, (h.fresh.mp zero).2, low zero⟩,
        fun ⟨earlier, high, _⟩ => h.fresh.mpr ⟨earlier, high⟩⟩
    · rw [warn]
      exact h.raised
    · intro large
      rw [decide_eq_true large, Bool.or_true]
    · exact fun high => h.idle (Bool.or_eq_false_iff.mp high).1
    · rw [need]
      exact h.doubles
    · rw [need]
      exact h.first
    · rw [need]
      exact h.later
    · intro earlier high
      cases before : e.high with
      | true => exact h.announced earlier before
      | false =>
        rw [before, Bool.false_or, decide_eq_true_iff] at high
        exact absurd high (low (h.fresh.mpr ⟨earlier, before⟩))

/-- What is announced of an episode. -/
theorem Tracks.announced_iff_earlier (h : e.Tracks wb) : e.Announced wb ↔ e.earlier = false := by
  constructor
  · intro announced
    by_contra earlier
    obtain ⟨n, head, raised⟩ := h.later (by simpa using earlier)
    have same := Option.some.inj (head.symm.trans announced.first)
    rw [same] at raised
    exact absurd raised (by decide)
  · exact fun earlier => ⟨h.announced earlier, h.first earlier, h.doubles⟩

end Episode

/-! ### Whole runs -/

section

variable {s s' : SocketServer} {fd : Int32} {op : SocketOp} {e : Episode}

/-- What holds of the episode of a descriptor. -/
structure Episode.Follows (e : Episode) (s : SocketServer) (fd : Int32) : Prop where
  unmanaged : s.conns fd = none → e = {}
  tracks : e.Tracks (s.slot fd).wb

/-- An operation that does not send on the descriptor. -/
theorem Episode.Follows.quiet (h : e.Follows s fd) (other : ∀ buff low writes,
      op ≠ .sendBuffer fd buff low writes)
    (warn : (s'.slot fd).wb.warnSize = (s.slot fd).wb.warnSize)
    (size : (s'.slot fd).wb.wbSize ≤ (s.slot fd).wb.wbSize) (managed : s'.conns fd ≠ none) :
    (e.next fd s op s').Follows s' fd := by
  refine ⟨fun none => absurd none managed, ?_⟩
  have some : ¬ (s'.conns fd).isNone = true := by simpa using managed
  unfold Episode.next
  dsimp only
  rw [if_neg some]
  split
  · rename_i empty
    exact h.tracks.restart warn empty
  · split
    · rename_i fd' buff low writes
      rw [if_neg (by rintro rfl; exact other buff low writes rfl)]
      exact h.tracks.lower warn size
    · exact h.tracks.lower warn size

theorem Episode.Follows.gone (e : Episode) (s : SocketServer) (op : SocketOp)
    (conn : s'.conns fd = none) (buffer : s'.writeBuffers fd = none) :
    (e.next fd s op s').Follows s' fd := by
  have ended : e.next fd s op s' = {} := if_pos (by rw [conn]; rfl)
  have wb : (s'.slot fd).wb = {} := by rw [Slot.wb, SocketServer.slot_buffer, buffer]; rfl
  refine ⟨fun _ => ended, ?_⟩
  rw [ended, wb]
  exact .initial

/-- An operation that leaves the descriptor alone. -/
theorem Episode.Follows.same (h : e.Follows s fd) (managed : (s.slot fd).Managed)
    (other : ∀ buff low writes, op ≠ .sendBuffer fd buff low writes)
    (slot : s'.slot fd = s.slot fd) : (e.next fd s op s').Follows s' fd := by
  cases conn : s'.conns fd with
  | none =>
    have conn' : (s.slot fd).conn = none := by rw [← slot]; exact conn
    refine .gone e s op conn ?_
    rw [← SocketServer.slot_buffer, slot]
    exact managed.buffered conn'
  | some c => exact h.quiet other (by rw [slot]) (by rw [slot]) (by simp [conn])

/-- `SendBuffer` that is refused. -/
theorem Episode.Follows.refused (h : e.Follows s fd) (buff : List UInt8) (low : Bool)
    (writes : List WriteOutcome) : (e.next fd s (.sendBuffer fd buff low writes) s).Follows s fd := by
  unfold Episode.next
  dsimp only
  split
  · rename_i gone
    rw [← h.unmanaged (by simpa using gone)]
    exact h
  · rename_i managed
    have some : s.conns fd ≠ none := by simpa using managed
    split
    · rename_i empty
      exact ⟨fun none => absurd none some, h.tracks.restart rfl empty⟩
    · have high : (e.high || decide ((s.slot fd).wb.wbSize ≥ ConnWriteBuffer.warningSize)) = e.high := by
        cases before : e.high with
        | true => rfl
        | false =>
          rw [Bool.false_or, decide_eq_false_iff_not]
          intro large
          rw [h.tracks.high large] at before
          contradiction
      rw [if_pos rfl, high, Nat.sub_self, List.replicate_zero, List.append_nil]
      exact h

/-- `SendBuffer` on the descriptor. -/
theorem Episode.Follows.send (h : e.Follows s fd) (buff : List UInt8) (low : Bool)
    (writes : List WriteOutcome) :
    (e.next fd s (.sendBuffer fd buff low writes) (s.sendBuffer fd buff low writes).2).Follows
      (s.sendBuffer fd buff low writes).2 fd := by
  cases before : s.conns fd with
  | none =>
    have same : (s.sendBuffer fd buff low writes).2 = s := by rw [SocketServer.sendBuffer, before]
    rw [same]
    exact h.refused buff low writes
  | some conn =>
    cases closing : (s.slot fd).wb.isClosing with
    | true =>
      have closing' : ((s.writeBuffers fd).getD {}).isClosing = true := closing
      have same : (s.sendBuffer fd buff low writes).2 = s := by
        rw [SocketServer.sendBuffer, before]
        dsimp only
        rw [if_pos closing']
      rw [same]
      exact h.refused buff low writes
    | false =>
      obtain ⟨after, wb, posted⟩ :=
        SocketServer.sendBuffer_accepts buff low writes before closing
      have warn := (s.slot fd).wb.warnSize_send ⟨conn.sent.length, low, buff⟩
        ⟨writes, conn.calls⟩
      have sent := h.tracks.send warn
      have count : (s.sendBuffer fd buff low writes).2.warnings fd - s.warnings fd =
          (((s.slot fd).wb.send ⟨conn.sent.length, low, buff⟩
            ⟨writes, conn.calls⟩).1.warn.2.toList).length := by
        rw [SocketServer.warnings, SocketServer.warnings, posted, List.countP_append,
          Nat.add_sub_cancel_left, List.countP_map, List.countP_eq_length.mpr]
        simp [SocketServer.socketMsg]
      refine ⟨fun none => absurd none (by simp [after]), ?_⟩
      unfold Episode.next
      dsimp only
      rw [if_neg (by simp [after]), if_pos rfl, count, wb]
      split
      · rename_i empty
        rcases ConnWriteBuffer.warn_eq ((s.slot fd).wb.send ⟨conn.sent.length, low, buff⟩
          ⟨writes, conn.calls⟩).1 with ⟨reached, -, size, -⟩ | ⟨-, none⟩
        · have zero := (ConnWriteBuffer.warningSize_le_need _).trans reached
          rw [← size, empty] at zero
          exact absurd zero (by decide)
        · rw [none] at empty ⊢
          exact h.tracks.restart warn empty
      · exact sent

theorem Episode.Follows.step (h : e.Follows s fd) (managed : (s.slot fd).Managed)
    (step : s.Step op s') : (e.next fd s op s').Follows s' fd := by
  by_cases sends : ∃ buff low writes, op = .sendBuffer fd buff low writes
  · obtain ⟨buff, low, writes, rfl⟩ := sends
    cases step
    exact h.send buff low writes
  have other : ∀ buff low writes, op ≠ .sendBuffer fd buff low writes :=
    fun buff low writes eq => sends ⟨buff, low, writes, eq⟩
  rcases SocketServer.step_turns step managed with same | ⟨-, turn⟩
  · exact h.same managed other same
  cases turn with
  | gone conn buffer => exact .gone e s op conn buffer
  | opened before after sent calls buffer =>
    obtain rfl := h.unmanaged before
    have wb : (s'.slot fd).wb = {} := by rw [Slot.wb, buffer]; rfl
    have begins : Episode.next {} fd s op s' = {} := by
      unfold Episode.next
      rw [wb]
      split <;> rfl
    rw [begins]
    exact ⟨fun _ => rfl, by rw [wb]; exact .initial⟩
  | kept before after sent calls wb =>
    obtain ⟨isClosing, eq⟩ := wb
    exact h.quiet other (by rw [eq]) (by rw [eq]) (by rw [← SocketServer.slot_conn, after]; simp)
  | sent low buff writes eq before opens after sent calls wb =>
    exact absurd eq (other buff low writes)
  | @flushed conn conn' r answers eq before after sent calls wb =>
    obtain ⟨warn, size⟩ := (s.slot fd).wb.flush_sizes ⟨answers.writes, conn.calls⟩
    rw [← wb] at warn size
    exact h.quiet other warn size (by rw [← SocketServer.slot_conn, after]; simp)

end

theorem follows_of_run {fd : Int32} {p : SocketServer × Episode} {tr : List SocketOp}
    (run : (episodes fd).Run p tr) : socketServer.Run p.1 tr ∧ p.2.Follows p.1 fd := by
  refine run.invariant (P := fun p tr => socketServer.Run p.1 tr ∧ p.2.Follows p.1 fd) ?_ ?_
  · rintro _ rfl
    exact ⟨.init rfl, fun _ => rfl, .initial⟩
  · rintro p tr op p' - ⟨run, follows⟩ ⟨step, next⟩
    rw [next]
    exact ⟨run.step step, follows.step (SocketServer.managed_of_run run fd) step⟩

/-- At every moment of a run, the law of the warnings holds of the episode exactly when no earlier
episode of the connection reached `WARNING_SIZE`. -/
theorem announced_iff {fd : Int32} {p : SocketServer × Episode} {tr : List SocketOp}
    (run : (episodes fd).Run p tr) : p.2.Announced (p.1.slot fd).wb ↔ p.2.earlier = false :=
  (follows_of_run run).2.tracks.announced_iff_earlier

/-- A byte waits, and nothing else has happened on the connection. -/
theorem announced_iff_first :
    let s₁ := SocketServer.initial.connect 5 7 (some [])
    let s₂ := (s₁.sendBuffer 5 [1] false [.eagain]).2
    let e : Episode := {}
    0 < (s₂.slot 5).wb.wbSize ∧ (e.Announced (s₂.slot 5).wb ↔ e.earlier = false) := by
  intro s₁ s₂ e
  have step₁ : SocketServer.Step .initial (.connect 5 7 (some [])) s₁ := .connect rfl
  have step₂ : s₁.Step (.sendBuffer 5 [1] false [.eagain]) s₂ := .sendBuffer ..
  have run₀ : (episodes 5).Run (SocketServer.initial, {}) [] := .init rfl
  have run₁ : (episodes 5).Run (s₁, {}) _ := run₀.step ⟨step₁, by decide⟩
  have run₂ : (episodes 5).Run (s₂, e) _ := run₁.step ⟨step₂, by decide⟩
  exact ⟨by decide, announced_iff run₂⟩

/-- The connection is made and its high queue holds these objects. -/
structure SocketServer.Holding (s : SocketServer) (fd : Int32) (queue : List WriteObject) :
    Prop where
  conn : ∃ conn, s.conns fd = some conn ∧ conn.connecting = false ∧ conn.type = .client
  objs : (s.slot fd).wb.objs = queue
  low : (s.slot fd).wb.low = []
  opens : (s.slot fd).wb.isClosing = false
  size : (s.slot fd).wb.wbSize = left queue

theorem ConnWriteBuffer.warn_same (wb : ConnWriteBuffer) :
    ∃ warnSize, wb.warn.1 = { wb with warnSize } := by
  unfold warn
  split
  · exact ⟨_, rfl⟩
  · exact ⟨wb.warnSize, rfl⟩

theorem SocketServer.Holding.send {s : SocketServer} {fd : Int32} (h : s.Holding fd [])
    (buff : List UInt8) : ∃ msg : Submission, msg.buff = buff ∧
      (s.sendBuffer fd buff false [.eagain]).2.Holding fd [WriteObject.whole msg] := by
  obtain ⟨conn, managed, connected, type⟩ := h.conn
  obtain ⟨after, wb, -⟩ := sendBuffer_accepts buff false [.eagain] managed h.opens
  have queued : ((s.slot fd).wb.send ⟨conn.sent.length, false, buff⟩ ⟨[.eagain], conn.calls⟩).1 =
      { (s.slot fd).wb with
        objs := [WriteObject.whole ⟨conn.sent.length, false, buff⟩]
        wbSize := buff.length } := by
    simp [ConnWriteBuffer.send, h.objs, h.low, h.size, ConnWriteBuffer.entireWriteWhenEmpty,
      WriteIo.write, WriteOutcome.clip]
  rw [queued] at wb
  obtain ⟨warnSize, same⟩ := ConnWriteBuffer.warn_same { (s.slot fd).wb with
    objs := [WriteObject.whole ⟨conn.sent.length, false, buff⟩]
    wbSize := buff.length }
  rw [same] at wb
  refine ⟨⟨conn.sent.length, false, buff⟩, rfl, ⟨_, after, connected, type⟩, ?_, ?_, ?_, ?_⟩
  · rw [wb]
  · rw [wb]
    exact h.low
  · rw [wb]
    exact h.opens
  · rw [wb, left_cons, left_nil]
    rfl

theorem SocketServer.Holding.flush {s : SocketServer} {fd : Int32} {obj : WriteObject}
    (h : s.Holding fd [obj]) :
    (s.onRW fd false true { writes := [.wrote obj.rest.length] }).Holding fd [] := by
  obtain ⟨conn, managed, connected, type⟩ := h.conn
  have objs := h.objs
  cases buffer : s.writeBuffers fd with
  | none =>
    rw [Slot.wb, slot_buffer, buffer] at objs
    contradiction
  | some wb =>
    have same : (s.slot fd).wb = wb := by
      rw [Slot.wb, slot_buffer, buffer]
      rfl
    have size := h.size
    have full := obj.rest_length
    rw [left_cons, left_nil, Nat.add_zero, ← full] at size
    have written : ((s.slot fd).wb.flush ⟨[.wrote obj.rest.length], conn.calls⟩).1 =
        { (s.slot fd).wb with objs := [], wbSize := 0 } := by
      have clip : (WriteOutcome.wrote obj.rest.length).clip obj.rest.length =
          .wrote (obj.len - obj.start) := by
        rw [← full]
        exact congrArg _ (Nat.min_self _)
      rw [full] at size
      rw [ConnWriteBuffer.flush, h.objs, writeAll, writeFrontFromList, WriteIo.write_eq clip]
      rcases Nat.eq_zero_or_pos (obj.len - obj.start) with none | pos
      · simp [h.low, writeAll, size, none]
      · simp [h.low, writeAll, size, pos]
    obtain ⟨conns, flushed⟩ :=
      writePart_flush { writes := [.wrote obj.rest.length] } managed connected buffer
    rw [← same, written] at flushed
    have idle : ∀ t : SocketServer, t.readPart fd false { writes := [.wrote obj.rest.length] } = t := by
      intro t
      unfold readPart
      split <;> rfl
    rw [onRW_parts, idle]
    have wb' : ((s.writePart fd true { writes := [.wrote obj.rest.length] }).slot fd).wb =
        { (s.slot fd).wb with objs := [], wbSize := 0 } := by
      rw [Slot.wb, slot_buffer, flushed]
      rfl
    refine ⟨⟨_, conns, connected, type⟩, ?_, ?_, ?_, ?_⟩
    · rw [wb']
    · rw [wb']
      exact h.low
    · rw [wb']
      exact h.opens
    · rw [wb']
      rfl

/-- A backlog of 1 MB is announced and written, and a second one is not announced. -/
theorem not_announced_second :
    ¬ ∀ (fd : Int32) (p : SocketServer × Episode) (tr : List SocketOp), (episodes fd).Run p tr →
      0 < (p.1.slot fd).wb.wbSize → p.2.Announced (p.1.slot fd).wb := by
  intro claim
  obtain ⟨buff, length⟩ : ∃ buff : List UInt8, buff.length = ConnWriteBuffer.warningSize :=
    ⟨List.replicate _ 0, List.length_replicate⟩
  let s₁ := SocketServer.initial.connect 5 7 (some [])
  let s₂ := (s₁.sendBuffer 5 buff false [.eagain]).2
  have empty₁ : s₁.Holding 5 [] := ⟨⟨_, rfl, rfl, rfl⟩, rfl, rfl, rfl, rfl⟩
  obtain ⟨msg, same, full₂⟩ := empty₁.send buff
  let answers : Answers := { writes := [.wrote (WriteObject.whole msg).rest.length] }
  let s₃ := s₂.onRW 5 false true answers
  let s₄ := (s₃.sendBuffer 5 buff false [.eagain]).2
  have empty₃ : s₃.Holding 5 [] := full₂.flush
  obtain ⟨msg', same', full₄⟩ := empty₃.send buff
  let e₂ := Episode.next {} 5 s₁ (.sendBuffer 5 buff false [.eagain]) s₂
  let e₃ := e₂.next 5 s₂ (.onRW 5 false true answers) s₃
  let e₄ := e₃.next 5 s₃ (.sendBuffer 5 buff false [.eagain]) s₄
  have step₁ : SocketServer.Step .initial (.connect 5 7 (some [])) s₁ := .connect rfl
  have step₂ : s₁.Step (.sendBuffer 5 buff false [.eagain]) s₂ := .sendBuffer ..
  have step₃ : s₂.Step (.onRW 5 false true answers) s₃ := by
    obtain ⟨conn, managed, -, type⟩ := full₂.conn
    exact .onRW managed (by rw [type]; simp)
  have step₄ : s₃.Step (.sendBuffer 5 buff false [.eagain]) s₄ := .sendBuffer ..
  have run₀ : (episodes 5).Run (SocketServer.initial, {}) [] := .init rfl
  have run₁ : (episodes 5).Run (s₁, {}) _ := run₀.step ⟨step₁, by decide⟩
  have run₂ : (episodes 5).Run (s₂, e₂) _ := run₁.step ⟨step₂, rfl⟩
  have run₃ : (episodes 5).Run (s₃, e₃) _ := run₂.step ⟨step₃, rfl⟩
  have run₄ : (episodes 5).Run (s₄, e₄) _ := run₃.step ⟨step₄, rfl⟩
  have large₂ : (s₂.slot 5).wb.wbSize = ConnWriteBuffer.warningSize := by
    rw [full₂.size]
    simpa [WriteObject.whole, WriteObject.len, same] using length
  have large₄ : (s₄.slot 5).wb.wbSize = ConnWriteBuffer.warningSize := by
    rw [full₄.size]
    simpa [WriteObject.whole, WriteObject.len, same'] using length
  have high₂ : e₂.high = true := (follows_of_run run₂).2.tracks.high (Nat.le_of_eq large₂.symm)
  have earlier₃ : e₃.earlier = true := by
    obtain ⟨conn, managed, -⟩ := empty₃.conn
    have zero : (s₃.slot 5).wb.wbSize = 0 := empty₃.size
    simp only [e₃, Episode.next, managed, zero]
    simp [high₂]
  have earlier₄ : e₄.earlier = true := by
    obtain ⟨conn, managed, -⟩ := full₄.conn
    have positive : (s₄.slot 5).wb.wbSize ≠ 0 := by
      rw [large₄]
      decide
    have managed₄ : s₄.conns 5 = some conn := managed
    dsimp only [e₄]
    unfold Episode.next
    dsimp only
    rw [if_neg (by simp [managed₄]), if_neg positive, if_pos rfl]
    exact earlier₃
  have open₄ : 0 < (s₄.slot 5).wb.wbSize := by
    rw [large₄]
    decide
  have announced := claim 5 (s₄, e₄) _ run₄ open₄
  rw [(follows_of_run run₄).2.tracks.announced_iff_earlier.mp announced] at earlier₄
  contradiction

end Starnet
