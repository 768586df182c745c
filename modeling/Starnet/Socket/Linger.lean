import Starnet.Socket.Armed
import Starnet.Socket.Closing
import Starnet.Socket.Retention

/-! The close that waits for the queues. The writing part of an event flushes them first, and the
reading part closes the connection at an end of file whatever they hold. -/

namespace Starnet

/-- The messages in the two queues. -/
def ConnWriteBuffer.queued (wb : ConnWriteBuffer) : List Submission :=
  (wb.objs ++ wb.low).map WriteObject.msg

/-- A `write` of a flush of these objects fails for good. -/
def FailsWrite : List WriteOutcome → List WriteObject → Prop
  | .wrote n :: writes, obj :: queue => obj.rest.length ≤ n ∧ FailsWrite writes queue
  | .error :: _, _ :: _ => True
  | _, _ => False

namespace SocketServer

/-- The kernel accepted all bytes of the messages. -/
def HandedAll (s : SocketServer) (fd : Int32) (msgs : List Submission) : Prop :=
  ∃ conn, s.conns fd = some conn ∧ ∀ msg ∈ msgs, handed conn.calls msg = msg.octets

/-- The connection is there, its socket is open, and its messages are not lost. -/
def Lingers (s : SocketServer) (fd : Int32) (msgs : List Submission) : Prop :=
  (s.sockets fd).isSome = true ∧ ∃ conn, s.conns fd = some conn ∧
    ∀ msg ∈ msgs, Retained conn.calls ((s.writeBuffers fd).getD {}) msg

/-- The event flushes the queues of the connection, and a `write` of it fails for good. -/
def FailsFlush (s : SocketServer) (fd : Int32) (w : Bool) (answers : Answers) : Prop :=
  w = true ∧ s.connHas fd Conn.connecting = false ∧
    FailsWrite answers.writes ((s.slot fd).wb.objs ++ (s.slot fd).wb.low)

/-- The event flushes the queues of the connection, and the kernel accepts all they hold. -/
def DrainsFlush (s : SocketServer) (fd : Int32) (w : Bool) (answers : Answers) : Prop :=
  w = true ∧ s.connHas fd Conn.connecting = false ∧
    AcceptsAll answers.writes ((s.slot fd).wb.objs ++ (s.slot fd).wb.low)

/-- The writing part of the operation ends with all bytes accepted, or a write of it fails. -/
def Excuses (s : SocketServer) (fd : Int32) (msgs : List Submission) : SocketOp → Prop
  | .onRW fd' _ w answers =>
    fd' = fd ∧ ((s.writePart fd w answers).HandedAll fd msgs ∨ s.FailsFlush fd w answers)
  | _ => False

/-- The attempt to connect does not fail, and the connection is not read to its end, unless the same
event flushes the queues first until they are empty or a write fails. -/
def SparesLinger (s : SocketServer) (fd : Int32) : SocketOp → Prop
  | .onRW fd' r w answers => fd' = fd → ∀ conn, s.conns fd = some conn →
    (w = true → conn.connecting = true → answers.soError = none) ∧
    (r = true → ({ conn with connecting := conn.connecting && !w } : Conn).readable = true →
      conn.endsRead answers.reads = true →
      s.DrainsFlush fd w answers ∨ s.FailsFlush fd w answers)
  | _ => True

end SocketServer

/-- The engine after `LingerClose`, and whether the close may go on: all bytes queued before are
accepted, or a write failed. -/
structure Lingering where
  server : SocketServer
  excused : Prop

/-- The engine from the call of `LingerClose` on, without `socket.close`. -/
def lingering (s : SocketServer) (fd : Int32) : Transition.System Lingering SocketOp where
  init p := p = ⟨s.lingerClose fd, (s.lingerClose fd).HandedAll fd (s.slot fd).wb.queued⟩
  step p op p' := p.server.Step op p'.server ∧ op ≠ .closeConn fd ∧
    p'.excused = (p.excused ∨ p.server.Excuses fd (s.slot fd).wb.queued op)

/-! ### Flushes that drain -/

theorem AcceptsAll.of_append : ∀ {queue others : List WriteObject} {writes : List WriteOutcome},
    AcceptsAll writes (queue ++ others) →
      AcceptsAll writes queue ∧ AcceptsAll (writes.drop queue.length) others
  | [], _, writes, h => ⟨.nil writes, h⟩
  | obj :: queue, _, writes, h => by
    cases writes with
    | nil => cases h
    | cons outcome writes =>
      cases outcome with
      | wrote n =>
        obtain ⟨first, later⟩ := AcceptsAll.of_append h.2
        exact ⟨⟨h.1, first⟩, later⟩
      | eagain | eintr | error => cases h

/-- A loop that everything is accepted in empties its queue. -/
theorem writeAll_of_acceptsAll (queues : List WriteObject → List WriteObject × List WriteObject) :
    ∀ {lst : List WriteObject} (written : Nat) {io : WriteIo},
    AcceptsAll io.answers lst → ∃ written' io',
      writeAll queues lst written io = ([], written', io') ∧
        io'.answers = io.answers.drop lst.length
  | [], written, io, _ => ⟨written, io, rfl, rfl⟩
  | obj :: others, written, io, h => by
    rcases answers : io.answers with _ | ⟨_ | _ | _ | _, writes⟩
    all_goals rw [answers] at h
    · cases h
    · rename_i n
      have clip : (io.answers.headD .eagain).clip obj.rest.length = .wrote (obj.len - obj.start) := by
        rw [answers, ← obj.rest_length]
        exact congrArg _ (Nat.min_eq_right h.1)
      rw [writeAll, writeFrontFromList, WriteIo.write_eq clip]
      dsimp only
      rw [if_pos rfl, answers]
      let next : WriteIo := ⟨writes, io.calls ++ [writeCall obj.msg obj.rest (obj.len - obj.start)
        (queues (obj :: others))]⟩
      have accepts : AcceptsAll next.answers others := h.2
      exact writeAll_of_acceptsAll queues (written + (obj.len - obj.start)) accepts
    · cases h
    · cases h
    · cases h

theorem ConnWriteBuffer.flush_of_acceptsAll {wb : ConnWriteBuffer} {io : WriteIo}
    (h : AcceptsAll io.answers (wb.objs ++ wb.low)) : (wb.flush io).1.hasData = false := by
  obtain ⟨high, low⟩ := h.of_append
  obtain ⟨written₁, io₁, highs, rest⟩ := writeAll_of_acceptsAll (fun lst => (lst, wb.low)) 0 high
  rw [← rest] at low
  obtain ⟨written₂, io₂, lows, -⟩ := writeAll_of_acceptsAll (fun lst => ([], lst)) written₁ low
  obtain ⟨objs, written, io', first, cases⟩ := wb.flush_cases io
  rw [highs] at first
  cases first
  rcases cases with ⟨empty, eq⟩ | ⟨-, low', written', io₃, second, eq⟩
  · rw [eq]
    simp [hasData, empty rfl]
  · rw [lows] at second
    cases second
    rw [eq]
    rfl

/-! ### The connection while it lingers -/

/-- The connection is closing, and the messages are written or queued. -/
structure Slot.Draining (a : Slot) (msgs : List Submission) (conn : Conn) : Prop where
  managed : a.conn = some conn
  closing : a.wb.isClosing = true
  ordered : Ordered conn.sent conn.calls a.wb
  held : ∃ done, Held conn.sent conn.calls done (a.wb.objs ++ a.wb.low) ∧
    ∀ msg ∈ msgs, msg ∈ done ++ a.wb.queued

namespace Slot.Draining

variable {a b : Slot} {msgs : List Submission} {conn conn' : Conn}

/-- The messages are not lost. -/
theorem retained (h : a.Draining msgs conn) : ∀ msg ∈ msgs, Retained conn.calls a.wb msg := by
  obtain ⟨done, held, all⟩ := h.held
  exact fun msg mem => held.retained h.ordered.numbered (all msg mem)

theorem handed (h : a.Draining msgs conn) (empty : a.wb.hasData = false) :
    ∀ msg ∈ msgs, handed conn.calls msg = msg.octets := by
  intro msg mem
  obtain ⟨objs, low⟩ := ConnWriteBuffer.hasData_eq_false.mp empty
  rcases h.retained msg mem with written | ⟨obj, queued, -⟩
  · exact written
  · simp [objs, low] at queued

theorem keep (h : a.Draining msgs conn) (after : b.conn = some conn') (buffer : b.buffer = a.buffer)
    (sent : conn'.sent = conn.sent) (calls : conn'.calls = conn.calls) : b.Draining msgs conn' := by
  have wb : b.wb = a.wb := by rw [Slot.wb, buffer, Slot.wb]
  constructor
  · exact after
  · rw [wb]
    exact h.closing
  · rw [wb, sent, calls]
    exact h.ordered
  · rw [wb, sent, calls]
    exact h.held

theorem flush (h : a.Draining msgs conn) (writes : List WriteOutcome) (after : b.conn = some conn')
    (sent : conn'.sent = conn.sent)
    (calls : conn'.calls = (a.wb.flush ⟨writes, conn.calls⟩).2.calls)
    (wb : b.wb = (a.wb.flush ⟨writes, conn.calls⟩).1) : b.Draining msgs conn' := by
  obtain ⟨done, held, all⟩ := h.held
  obtain ⟨ordered, done', held', same⟩ := h.ordered.flush_held ⟨writes, conn.calls⟩ held
  constructor
  · exact after
  · rw [wb, ConnWriteBuffer.isClosing_flush]
    exact h.closing
  · rw [wb, sent, calls]
    exact ordered
  · rw [wb, sent, calls]
    exact ⟨done', held', fun msg mem => by rw [ConnWriteBuffer.queued, same]; exact all msg mem⟩

end Slot.Draining

namespace SocketServer

variable {s s' : SocketServer} {fd : Int32} {msgs : List Submission} {conn : Conn} {op : SocketOp}
  {r w : Bool} {answers : Answers}

theorem buffer_of_closing (closing : (s.slot fd).wb.isClosing = true) :
    ∃ wb, s.writeBuffers fd = some wb ∧ (s.slot fd).wb = wb := by
  rw [Slot.wb, slot_buffer] at closing ⊢
  cases buffer : s.writeBuffers fd with
  | none => rw [buffer] at closing; contradiction
  | some wb => exact ⟨wb, rfl, rfl⟩

/-- The writing part of an event. -/
theorem writePart_lingers (h : (s.slot fd).Draining msgs conn)
    (ok : w = true → conn.connecting = true → answers.soError = none) :
    ∃ conn', ((s.writePart fd w answers).slot fd).Draining msgs conn' ∧
      conn'.readable = ({ conn with connecting := conn.connecting && !w } : Conn).readable ∧
      conn'.endsRead answers.reads = conn.endsRead answers.reads ∧
      (s.DrainsFlush fd w answers → ((s.writePart fd w answers).slot fd).wb.hasData = false) := by
  have managed : s.conns fd = some conn := h.managed
  obtain ⟨wb, buffer, held⟩ := buffer_of_closing h.closing
  cases w with
  | false =>
    rw [writePart_idle]
    exact ⟨conn, h, by rw [Bool.not_false, Bool.and_true], rfl, fun drains => nomatch drains.1⟩
  | true =>
    have connHas := connHas_eq (p := Conn.connecting) managed
    cases connecting : conn.connecting with
    | true =>
      obtain ⟨conns, kept⟩ := writePart_connect managed connecting (ok rfl connecting)
      refine ⟨_, h.keep conns kept rfl rfl, by rw [Bool.not_true, Bool.and_false],
        endsRead_congr (by rfl) _, fun drains => ?_⟩
      · rw [DrainsFlush, connHas, connecting] at drains
        exact absurd drains.2.1 (by simp)
    | false =>
      obtain ⟨conns, flushed⟩ := writePart_flush answers managed connecting buffer
      have after : ((s.writePart fd true answers).slot fd).wb =
          ((s.slot fd).wb.flush ⟨answers.writes, conn.calls⟩).1 := by
        rw [Slot.wb, slot_buffer, flushed, held]
        rfl
      refine ⟨_, h.flush answers.writes conns rfl (by rw [held]) after, ?_, endsRead_congr (by rfl) _,
        fun drains => ?_⟩
      · rw [Bool.false_and, Conn.readable, Conn.readable, connecting]
      · rw [after]
        exact ConnWriteBuffer.flush_of_acceptsAll drains.2.2

theorem onRW_lingers (h : (s.slot fd).Draining msgs conn)
    (spares : s.SparesLinger fd (.onRW fd r w answers)) :
    (∃ conn', ((s.onRW fd r w answers).slot fd).Draining msgs conn') ∨
      s.Excuses fd msgs (.onRW fd r w answers) := by
  obtain ⟨ok, reads⟩ := spares rfl conn h.managed
  obtain ⟨conn', waits, readable, ends, drains⟩ := writePart_lingers h ok
  have read := readPart_ends r answers waits.managed
  rw [onRW_parts]
  split at read
  · rename_i closes
    simp only [Bool.and_eq_true] at closes
    rw [readable, ends] at closes
    refine Or.inr ⟨rfl, ?_⟩
    rcases reads closes.1.1 closes.1.2 closes.2 with drained | failed
    · exact Or.inl ⟨conn', waits.managed, waits.handed (drains drained)⟩
    · exact Or.inr failed
  · obtain ⟨readSize, readBuffCap, -, after, buffer⟩ := read
    exact Or.inl ⟨_, waits.keep after buffer rfl rfl⟩

/-- The other operations leave a closing connection. -/
theorem step_lingers (h : (s.slot fd).Draining msgs conn) (managed : (s.slot fd).Managed)
    (step : Step s op s') (open_ : op ≠ .closeConn fd) (spares : s.SparesLinger fd op) :
    (∃ conn', (s'.slot fd).Draining msgs conn') ∨ s.Excuses fd msgs op := by
  by_cases own : fd = opFd op
  swap
  · rw [step_other step own]
    exact Or.inl ⟨conn, h⟩
  have opened : s.sockets fd ≠ none := by
    obtain ⟨k, socket, -⟩ := managed.registered_of h.managed
    rw [slot_socket] at socket
    rw [socket]
    simp
  obtain ⟨wb, buffer, held⟩ := buffer_of_closing h.closing
  have closing := h.closing
  rw [held] at closing
  have conns : s.conns fd = some conn := h.managed
  have paused : ∀ p, (∃ conn', ((s.setPaused fd p).2.slot fd).Draining msgs conn') := by
    intro p
    refine ⟨{ conn with paused := p }, h.keep ?_ ?_ rfl rfl⟩
    · simp [setPaused, conns, modConn]
    · simp [setPaused, conns, modConn]
  cases step with
  | openFd free | listen free | accept listener type free | connect free =>
    exact absurd (own ▸ free) opened
  | bind f serviceId datagram =>
    obtain rfl : fd = f := own
    refine Or.inl ⟨conn, ?_⟩
    rw [bind, if_neg (by simpa using opened), if_pos (by simp [conns])]
    exact h
  | sendBuffer f buff low writes =>
    obtain rfl : fd = f := own
    refine Or.inl ⟨conn, ?_⟩
    rw [sendBuffer, conns, buffer]
    dsimp only
    rw [Option.getD_some, if_pos closing]
    exact h
  | onRW managed type =>
    obtain rfl : fd = _ := own
    exact onRW_lingers h spares
  | pauseRead f =>
    obtain rfl : fd = f := own
    exact Or.inl (paused true)
  | resumeRead f =>
    obtain rfl : fd = f := own
    exact Or.inl (paused false)
  | lingerClose f =>
    obtain rfl : fd = f := own
    refine Or.inl ⟨conn, ?_⟩
    rw [lingerClose, buffer]
    dsimp only
    rw [if_pos closing]
    exact h
  | closeConn f =>
    obtain rfl : fd = f := own
    exact absurd rfl open_

/-- The connection lingers after the call. -/
theorem lingerClose_lingers (ordered : Ordered conn.sent conn.calls (s.slot fd).wb)
    (managed : s.conns fd = some conn) (queued : (s.slot fd).wb.hasData = true) :
    ((s.lingerClose fd).slot fd).Draining (s.slot fd).wb.queued conn := by
  obtain ⟨done, held⟩ := ordered.held
  have all : ∀ msg ∈ (s.slot fd).wb.queued, msg ∈ done ++ (s.slot fd).wb.queued :=
    fun msg mem => List.mem_append_right _ mem
  cases buffer : s.writeBuffers fd with
  | none =>
    rw [Slot.wb, slot_buffer, buffer] at queued
    contradiction
  | some wb =>
    have same : (s.slot fd).wb = wb := by
      rw [Slot.wb, slot_buffer, buffer]
      rfl
    rw [same] at queued
    rw [lingerClose, buffer]
    dsimp only
    cases closing : wb.isClosing with
    | true =>
      rw [if_pos rfl]
      exact ⟨managed, by rw [same, closing], ordered, done, held, all⟩
    | false =>
      have wb' : ((s.setBuffer fd (some { wb with isClosing := true })).slot fd).wb =
          { (s.slot fd).wb with isClosing := true } := by
        rw [Slot.wb, slot_setBuffer, same]
        rfl
      rw [if_neg Bool.false_ne_true, if_pos queued]
      refine ⟨managed, by rw [wb'], ?_, done, ?_, fun msg mem => ?_⟩
      · rw [wb']
        exact ordered.congr rfl rfl
      · rw [wb']
        exact held
      · rw [ConnWriteBuffer.queued, wb']
        exact all msg mem

end SocketServer

/-! ### Whole runs -/

theorem run_of_lingering {s : SocketServer} {fd : Int32} {tr : List SocketOp}
    (run : socketServer.Run s tr) {C : Lingering → SocketOp → Prop} {p : Lingering}
    {tr' : List SocketOp} (later : ((lingering s fd).restrict C).Run p tr') :
    socketServer.Run p.server (tr ++ .lingerClose fd :: tr') := by
  induction later with
  | init h =>
    rw [show _ = (⟨s.lingerClose fd, _⟩ : Lingering) from h]
    exact run.step (.lingerClose s fd)
  | step _ h ih =>
    rw [← List.cons_append, ← List.append_assoc]
    exact ih.step h.1.1

end Starnet
