import Starnet.Socket.Slot

/-! What each operation does to the messages and the write buffer of its connection. An event has
two parts, of which the first one writes and the second one reads. -/

namespace Starnet

/-- A `read` of `ReadData` returns 0 or fails for good. -/
def Conn.endsRead (conn : Conn) : List ReadOutcome → Bool
  | [] => false
  | .data bytes :: outcomes =>
    let len := (bytes.take conn.readSize).length
    if len > 0 then
      len = conn.readSize &&
        (SocketServer.adaptReadSize (SocketServer.growBuffer conn) len).endsRead outcomes
    else true
  | .eof :: _ | .error :: _ => true
  | .eagain :: _ | .eintr :: _ => false

/-- `OnRW` reads a stream when `r` is set and its writing part is done. -/
def Conn.readable (conn : Conn) : Bool :=
  !conn.connecting && !conn.paused && conn.type ≠ .udp

namespace SocketServer

variable {s : SocketServer} {fd : Int32} {conn : Conn} {r w : Bool} {answers : Answers}

/-- The part of `OnRW` for a writable connection. -/
def writePart (s : SocketServer) (fd : Int32) (w : Bool) (answers : Answers) : SocketServer :=
  match s.conns fd with
  | some conn =>
    if w then
      if conn.connecting then s.onConnectFinish fd conn answers
      else s.onWriteable fd answers.writes
    else s
  | none => s

/-- The part of `OnRW` for a readable connection. -/
def readPart (s : SocketServer) (fd : Int32) (r : Bool) (answers : Answers) : SocketServer :=
  match s.conns fd with
  | some conn =>
    if r && !conn.connecting && !conn.paused then
      if conn.type = .udp then s.readUdp fd conn.serviceId answers.datagrams
      else s.readData fd answers.reads
    else s
  | none => s

theorem onRW_parts : s.onRW fd r w answers = (s.writePart fd w answers).readPart fd r answers := rfl

/-! ### The writing part -/

theorem writePart_idle : s.writePart fd false answers = s := by
  unfold writePart
  split <;> rfl

theorem writePart_connect (managed : s.conns fd = some conn) (connecting : conn.connecting = true)
    (ok : answers.soError = none) :
    (s.writePart fd true answers).conns fd = some { conn with connecting := false } ∧
      (s.writePart fd true answers).writeBuffers fd = s.writeBuffers fd := by
  have slot : (s.writePart fd true answers).slot fd = ⟨some { conn with connecting := false },
      s.writeBuffers fd, (s.sockets fd).map (Slot.rearm conn.paused false)⟩ := by
    simp [writePart, managed, connecting, onConnectFinish, ok, modConn]
  exact ⟨congrArg Slot.conn slot, congrArg Slot.buffer slot⟩

theorem writePart_failed (managed : s.conns fd = some conn) (connecting : conn.connecting = true)
    {err : List UInt8} (failed : answers.soError = some err) :
    (s.writePart fd true answers).conns fd = none ∧
      (s.writePart fd true answers).writeBuffers fd = none := by
  have slot : ((s.writePart fd true answers).slot fd).conn = none ∧
      ((s.writePart fd true answers).slot fd).buffer = none := by
    simp [writePart, managed, connecting, onConnectFinish, failed]
  exact slot

theorem writePart_empty (managed : s.conns fd = some conn) (connected : conn.connecting = false)
    (buffer : s.writeBuffers fd = none) : s.writePart fd w answers = s := by
  cases w with
  | false => exact writePart_idle
  | true =>
    simp [writePart, managed, connected, onWriteable, flushWriteable, buffer, finishWriteable]

theorem writePart_flush (answers : Answers) (managed : s.conns fd = some conn)
    (connected : conn.connecting = false) {wb : ConnWriteBuffer} (buffer : s.writeBuffers fd = some wb) :
    (s.writePart fd true answers).conns fd =
        some { conn with calls := (wb.flush ⟨answers.writes, conn.calls⟩).2.calls } ∧
      (s.writePart fd true answers).writeBuffers fd =
        some (wb.flush ⟨answers.writes, conn.calls⟩).1 := by
  rcases flushes : wb.flush ⟨answers.writes, conn.calls⟩ with ⟨wb', io⟩
  have slot : ∃ k, (s.writePart fd true answers).slot fd =
      ⟨some { conn with calls := io.calls }, some wb', k⟩ := by
    cases data : wb'.hasData with
    | true =>
      exact ⟨s.sockets fd, by
        simp [writePart, managed, connected, onWriteable, flushWriteable, buffer, flushes, data,
          finishWriteable]⟩
    | false =>
      cases closing : wb'.isClosing with
      | true =>
        exact ⟨_, by
          simp [writePart, managed, connected, onWriteable, flushWriteable, buffer, flushes, data,
            closing, finishWriteable, shutdownRead]; rfl⟩
      | false =>
        exact ⟨_, by
          simp [writePart, managed, connected, onWriteable, flushWriteable, buffer, flushes, data,
            closing, finishWriteable]; rfl⟩
  obtain ⟨k, slot⟩ := slot
  exact ⟨congrArg Slot.conn slot, congrArg Slot.buffer slot⟩

/-! ### The reading part -/

theorem growBuffer_readSize (conn : Conn) : (growBuffer conn).readSize = conn.readSize := by
  obtain ⟨cap, eq⟩ := growBuffer_eq conn
  rw [eq]

/-- The size after a round depends on the size before it only. -/
theorem adaptReadSize_congr {conn' : Conn} (same : conn'.readSize = conn.readSize) (len : Nat) :
    (adaptReadSize (growBuffer conn') len).readSize =
      (adaptReadSize (growBuffer conn) len).readSize := by
  obtain ⟨cap, grown⟩ := growBuffer_eq conn
  obtain ⟨cap', grown'⟩ := growBuffer_eq conn'
  rw [grown, grown', adaptReadSize, adaptReadSize]
  dsimp only
  rw [same]
  split_ifs <;> rfl

theorem adaptReadSize_pos {len : Nat} (pos : 0 < conn.readSize) :
    0 < (adaptReadSize (growBuffer conn) len).readSize := by
  have max : 0 < readBufferMax := by decide
  have min : 0 < readBufferMin := by decide
  obtain ⟨cap, grown⟩ := growBuffer_eq conn
  rw [grown, adaptReadSize]
  split_ifs <;> dsimp only at * <;> omega

theorem endsRead_congr {conn' : Conn} (same : conn'.readSize = conn.readSize)
    (outcomes : List ReadOutcome) : conn'.endsRead outcomes = conn.endsRead outcomes := by
  induction outcomes generalizing conn conn' with
  | nil => rfl
  | cons outcome outcomes ih =>
    cases outcome with
    | data bytes =>
      rw [Conn.endsRead, Conn.endsRead, same, ih (adaptReadSize_congr same _)]
    | eof | error | eagain | eintr => rfl

/-- A round that reads some bytes. -/
theorem readRound_data (managed : s.conns fd = some conn) {bytes : List UInt8}
    (read : (bytes.take conn.readSize).length > 0) :
    (s.readRound fd (.data bytes)).1 = ((bytes.take conn.readSize).length = conn.readSize : Bool) ∧
      (s.readRound fd (.data bytes)).2.conns fd =
        some (adaptReadSize (growBuffer conn) (bytes.take conn.readSize).length) ∧
      (s.readRound fd (.data bytes)).2.writeBuffers = s.writeBuffers ∧
      (s.readRound fd (.data bytes)).2.posted = s.posted ++
        [({ socketMsg .data fd with buff := bytes.take conn.readSize }, conn.serviceId)] := by
  have cap := growBuffer_readSize conn
  have service : (growBuffer conn).serviceId = conn.serviceId := by
    obtain ⟨cap, grown⟩ := growBuffer_eq conn
    rw [grown]
  rw [readRound, managed]
  dsimp only
  rw [cap, if_pos read, service]
  exact ⟨rfl, conns_setConn .., rfl, rfl⟩

/-- `ReadData` closes the connection, or changes the sizes of its read buffer. -/
theorem readData_ends (outcomes : List ReadOutcome) (managed : s.conns fd = some conn) :
    if conn.endsRead outcomes then
      (s.readData fd outcomes).conns fd = none ∧ (s.readData fd outcomes).writeBuffers fd = none
    else ∃ readSize readBuffCap, (0 < conn.readSize → 0 < readSize) ∧
      (s.readData fd outcomes).conns fd = some { conn with readSize, readBuffCap } ∧
        (s.readData fd outcomes).writeBuffers fd = s.writeBuffers fd := by
  induction outcomes generalizing s conn with
  | nil =>
    obtain ⟨cap, grown⟩ := growBuffer_eq conn
    rw [readData, readRound, managed]
    exact ⟨conn.readSize, cap, id, by rw [← grown]; exact conns_setConn .., rfl⟩
  | cons outcome outcomes ih =>
    obtain ⟨cap, grown⟩ := growBuffer_eq conn
    cases outcome with
    | data bytes =>
      rw [readData, Conn.endsRead]
      by_cases read : (bytes.take conn.readSize).length > 0
      · rw [if_pos read]
        obtain ⟨again, conns, buffers, -⟩ := readRound_data managed read
        rcases round : s.readRound fd (.data bytes) with ⟨more, t⟩
        rw [round] at again conns buffers
        obtain ⟨size, adapted⟩ := adaptReadSize_eq (growBuffer conn) (bytes.take conn.readSize).length
        cases more with
        | true =>
          have full : decide ((bytes.take conn.readSize).length = conn.readSize) = true := again.symm
          have rest := ih conns
          rw [full, Bool.true_and]
          dsimp only
          split
          · rename_i ends
            rwa [if_pos ends] at rest
          · rename_i ends
            rw [if_neg ends] at rest
            obtain ⟨readSize, readBuffCap, pos, kept, buffer⟩ := rest
            rw [adapted, grown] at kept
            exact ⟨readSize, readBuffCap, pos ∘ adaptReadSize_pos, kept, by rw [buffer, buffers]⟩
        | false =>
          have short : decide ((bytes.take conn.readSize).length = conn.readSize) = false := again.symm
          rw [short, Bool.false_and, if_neg Bool.false_ne_true]
          have adaptedPos : 0 < conn.readSize → 0 < (adaptReadSize (growBuffer conn)
              (bytes.take conn.readSize).length).readSize := adaptReadSize_pos
          rw [adapted] at adaptedPos
          rw [adapted, grown] at conns
          exact ⟨size, cap, adaptedPos, conns, by rw [buffers]⟩
      · rw [if_neg read, if_pos rfl, readRound, managed]
        dsimp only
        rw [growBuffer_readSize, if_neg read]
        exact notifyClose_slot _
    | eof | error =>
      rw [readData, readRound, managed]
      exact notifyClose_slot _
    | eagain | eintr =>
      rw [readData, readRound, managed]
      exact ⟨conn.readSize, cap, id, by rw [← grown]; exact conns_setConn .., rfl⟩

/-- The reading part closes the connection, or changes the sizes of its read buffer. -/
theorem readPart_ends (r : Bool) (answers : Answers) (managed : s.conns fd = some conn) :
    if r && conn.readable && conn.endsRead answers.reads then
      (s.readPart fd r answers).conns fd = none ∧ (s.readPart fd r answers).writeBuffers fd = none
    else ∃ readSize readBuffCap, (0 < conn.readSize → 0 < readSize) ∧
      (s.readPart fd r answers).conns fd = some { conn with readSize, readBuffCap } ∧
        (s.readPart fd r answers).writeBuffers fd = s.writeBuffers fd := by
  have idle : ∃ readSize readBuffCap, (0 < conn.readSize → 0 < readSize) ∧
      s.conns fd = some { conn with readSize, readBuffCap } ∧
        s.writeBuffers fd = s.writeBuffers fd := ⟨_, _, id, managed, rfl⟩
  rw [readPart, managed, Conn.readable]
  dsimp only
  by_cases reads : (r && !conn.connecting && !conn.paused) = true
  · rw [if_pos reads]
    by_cases udp : conn.type = .udp
    · have slot := readUdp_slot s fd fd conn.serviceId answers.datagrams
      rw [if_pos udp, if_neg (by simp [udp])]
      exact ⟨_, _, id, (congrArg Slot.conn slot).trans managed, congrArg Slot.buffer slot⟩
    · have all : (r && (!conn.connecting && !conn.paused && decide (conn.type ≠ .udp))) = true := by
        simpa [udp, and_assoc] using reads
      rw [if_neg udp, all, Bool.true_and]
      exact readData_ends answers.reads managed
  · have none : (r && (!conn.connecting && !conn.paused && decide (conn.type ≠ .udp))) = false := by
      rw [← Bool.and_assoc, ← Bool.and_assoc, Bool.eq_false_iff.mpr reads, Bool.false_and]
    rw [if_neg reads, none, Bool.false_and, if_neg Bool.false_ne_true]
    exact idle

end SocketServer

/-! ### Messages and write buffers -/

/-- What an operation on `fd` does to the messages and the write buffer of its connection. -/
inductive Slot.Turn (fd : Int32) (op : SocketOp) (a b : Slot) : Prop
  | gone (conn : b.conn = none) (buffer : b.buffer = none)
  | opened {conn : Conn} (before : a.conn = none) (after : b.conn = some conn)
      (sent : conn.sent = []) (calls : conn.calls = []) (buffer : b.buffer = none)
      (size : 0 < conn.readSize)
  | kept {conn conn' : Conn} (before : a.conn = some conn) (after : b.conn = some conn')
      (sent : conn'.sent = conn.sent) (calls : conn'.calls = conn.calls)
      (wb : ∃ isClosing, b.wb = { a.wb with isClosing })
      (size : 0 < conn.readSize → 0 < conn'.readSize)
  | sent {conn conn' : Conn} (low : Bool) (buff : List UInt8) (writes : List WriteOutcome)
      (eq : op = .sendBuffer fd buff low writes) (before : a.conn = some conn)
      (opens : a.wb.isClosing = false) (after : b.conn = some conn')
      (sent : conn'.sent = conn.sent ++ [⟨conn.sent.length, low, buff⟩])
      (calls : conn'.calls =
        (a.wb.send ⟨conn.sent.length, low, buff⟩ ⟨writes, conn.calls⟩).2.2.calls)
      (wb : b.wb = (a.wb.send ⟨conn.sent.length, low, buff⟩ ⟨writes, conn.calls⟩).1.warn.1)
      (size : 0 < conn.readSize → 0 < conn'.readSize)
  | flushed {conn conn' : Conn} (r : Bool) (answers : Answers)
      (eq : op = .onRW fd r true answers) (before : a.conn = some conn)
      (after : b.conn = some conn') (sent : conn'.sent = conn.sent)
      (calls : conn'.calls = (a.wb.flush ⟨answers.writes, conn.calls⟩).2.calls)
      (wb : b.wb = (a.wb.flush ⟨answers.writes, conn.calls⟩).1)
      (size : 0 < conn.readSize → 0 < conn'.readSize)

section

variable {fd : Int32} {op : SocketOp} {a b : Slot}

theorem Slot.Turn.stay (a : Slot) (managed : a.Managed) : a.Turn fd op a := by
  cases conn : a.conn with
  | none => exact .gone conn (managed.buffered conn)
  | some c => exact .kept conn conn rfl rfl ⟨a.wb.isClosing, rfl⟩ id

/-- An operation that changes neither the messages nor the write buffer. -/
theorem Slot.Turn.of_buffer {conn conn' : Conn} (before : a.conn = some conn)
    (after : b.conn = some conn') (buffer : b.buffer = a.buffer) (sent : conn'.sent = conn.sent)
    (calls : conn'.calls = conn.calls) (size : conn'.readSize = conn.readSize) : a.Turn fd op b :=
  .kept before after sent calls ⟨a.wb.isClosing, by rw [Slot.wb, buffer]; rfl⟩ fun pos =>
    size ▸ pos

end

namespace SocketServer

open Slot (Turn)

variable {s : SocketServer} {fd : Int32} {op : SocketOp}

theorem setPaused_turn (managed : (s.slot fd).Managed) (paused : Bool) :
    (s.slot fd).Turn fd op ((s.setPaused fd paused).2.slot fd) := by
  unfold setPaused
  split
  · exact Turn.stay _ managed
  · rename_i conn before
    refine .kept before (show _ = some { conn with paused } from ?_) rfl rfl
      ⟨(s.slot fd).wb.isClosing, ?_⟩ id
    · simp [modConn, before]
    · simp [Slot.wb, modConn]

theorem lingerClose_turn (managed : (s.slot fd).Managed) :
    (s.slot fd).Turn fd op ((s.lingerClose fd).slot fd) := by
  unfold lingerClose
  split
  · exact .gone (dropConn_clears s fd).1 (dropConn_clears s fd).2
  · rename_i wb buffer
    split
    · exact Turn.stay _ managed
    · dsimp only
      split
      · cases conn : s.conns fd with
        | none => exact absurd (managed.buffered conn) (by simp [buffer])
        | some c =>
          rw [slot_setBuffer]
          exact .kept conn conn rfl rfl ⟨true, by simp [Slot.wb, buffer]⟩ id
      · exact .gone (dropConn_clears _ fd).1 (dropConn_clears _ fd).2

theorem writePart_turn {r w : Bool} {answers : Answers} {conn : Conn}
    (managed : s.conns fd = some conn) :
    (s.slot fd).Turn fd (.onRW fd r w answers) ((s.writePart fd w answers).slot fd) := by
  cases w with
  | false =>
    rw [writePart_idle]
    exact Turn.of_buffer managed managed rfl rfl rfl rfl
  | true =>
    cases connecting : conn.connecting with
    | true =>
      cases so : answers.soError with
      | none =>
        obtain ⟨conns, buffer⟩ := writePart_connect managed connecting so
        exact Turn.of_buffer managed conns buffer rfl rfl rfl
      | some err =>
        obtain ⟨conns, buffer⟩ := writePart_failed managed connecting so
        exact .gone conns buffer
    | false =>
      cases buffer : s.writeBuffers fd with
      | none =>
        rw [writePart_empty managed connecting buffer]
        exact Turn.of_buffer managed managed rfl rfl rfl rfl
      | some wb =>
        obtain ⟨conns, flushed⟩ := writePart_flush answers managed connecting buffer
        have before : (s.slot fd).wb = wb := by rw [Slot.wb, slot_buffer, buffer]; rfl
        refine .flushed r answers rfl managed conns rfl ?_ ?_ id
        · rw [before]
        · rw [before, Slot.wb, slot_buffer, flushed]
          rfl

/-- Reading keeps what a part of an event before it did. -/
theorem readPart_turn {a : Slot} {r : Bool} {answers : Answers} (h : a.Turn fd op (s.slot fd)) :
    a.Turn fd op ((s.readPart fd r answers).slot fd) := by
  cases managed : s.conns fd with
  | none =>
    rw [readPart, managed]
    exact h
  | some conn =>
    have ends := readPart_ends r answers managed
    split at ends
    · exact .gone ends.1 ends.2
    · obtain ⟨readSize, readBuffCap, pos, after, buffer⟩ := ends
      have same : ((s.readPart fd r answers).slot fd).wb = (s.slot fd).wb := by
        rw [Slot.wb, slot_buffer, buffer]
        rfl
      cases h with
      | gone conn buffer => exact absurd managed (by rw [← slot_conn, conn]; simp)
      | opened before old sent calls empty size =>
        cases Option.some.inj (old.symm.trans managed)
        exact .opened before after sent calls (buffer.trans empty) (pos size)
      | kept before old sent calls wb size =>
        cases Option.some.inj (old.symm.trans managed)
        exact .kept before after sent calls (by rw [same]; exact wb) (pos ∘ size)
      | sent low buff writes eq before opens old sent calls wb size =>
        cases Option.some.inj (old.symm.trans managed)
        exact .sent low buff writes eq before opens after sent calls (by rw [same]; exact wb)
          (pos ∘ size)
      | flushed r' answers' eq before old sent calls wb size =>
        cases Option.some.inj (old.symm.trans managed)
        exact .flushed r' answers' eq before after sent calls (by rw [same]; exact wb) (pos ∘ size)

theorem onRW_turn {r w : Bool} {answers : Answers} (managed : (s.slot fd).Managed) :
    (s.slot fd).Turn fd (.onRW fd r w answers) ((s.onRW fd r w answers).slot fd) := by
  rw [onRW_parts]
  refine readPart_turn ?_
  cases conns : s.conns fd with
  | none =>
    rw [writePart, conns]
    exact Turn.stay _ managed
  | some conn => exact writePart_turn conns

/-- `SendBuffer` on a connection that is not closing. -/
theorem sendBuffer_accepts {conn : Conn} (buff : List UInt8) (low : Bool)
    (writes : List WriteOutcome) (managed : s.conns fd = some conn)
    (opens : (s.slot fd).wb.isClosing = false) :
    let sends := (s.slot fd).wb.send ⟨conn.sent.length, low, buff⟩ ⟨writes, conn.calls⟩
    let s' := (s.sendBuffer fd buff low writes).2
    s'.conns fd = some { conn with
        sent := conn.sent ++ [⟨conn.sent.length, low, buff⟩]
        calls := sends.2.2.calls } ∧
      (s'.slot fd).wb = sends.1.warn.1 ∧
      s'.posted = s.posted ++ sends.1.warn.2.toList.map fun kb =>
        ({ socketMsg .warning fd with size := Int32.ofNat kb }, conn.serviceId) := by
  intro sends s'
  rcases accepted : sends with ⟨wb, arm, io⟩
  rcases warned : wb.warn with ⟨wb', warnKb⟩
  have held : ((s.writeBuffers fd).getD {}).send ⟨conn.sent.length, low, buff⟩
      ⟨writes, conn.calls⟩ = (wb, arm, io) := accepted
  have closing : ((s.writeBuffers fd).getD {}).isClosing = false := opens
  dsimp only [s']
  rw [sendBuffer, managed]
  dsimp only
  rw [closing, if_neg Bool.false_ne_true, held, warned]
  refine ⟨?_, ?_, ?_⟩
  · rw [← slot_conn]
    cases arm <;> cases warnKb <;> simp
  · cases arm <;> cases warnKb <;> simp [Slot.wb]
  · cases arm <;> cases warnKb <;> simp [post, setConn, setBuffer, modifyEvent, setSocket]

theorem sendBuffer_turn {buff : List UInt8} {low : Bool} {writes : List WriteOutcome}
    (managed : (s.slot fd).Managed) :
    (s.slot fd).Turn fd (.sendBuffer fd buff low writes)
      ((s.sendBuffer fd buff low writes).2.slot fd) := by
  cases before : s.conns fd with
  | none =>
    rw [sendBuffer, before]
    exact .stay _ managed
  | some conn =>
    cases closing : (s.slot fd).wb.isClosing with
    | true =>
      have closing' : ((s.writeBuffers fd).getD {}).isClosing = true := closing
      rw [sendBuffer, before]
      dsimp only
      rw [if_pos closing']
      exact .stay _ managed
    | false =>
      obtain ⟨after, wb, -⟩ := sendBuffer_accepts buff low writes before closing
      exact .sent low buff writes rfl before closing after rfl rfl wb id

/-- The steps of a descriptor. -/
theorem step_turn {s' : SocketServer} (h : Step s op s') (managed : (s.slot (opFd op)).Managed) :
    (s.slot (opFd op)).Turn (opFd op) op (s'.slot (opFd op)) := by
  have unmanaged : ∀ fd, (s.slot fd).Managed → s.sockets fd = none →
      s.conns fd = none ∧ s.writeBuffers fd = none := by
    intro fd managed free
    have conn : s.conns fd = none := by
      by_contra conn
      obtain ⟨k, socket, -⟩ := managed.registered (Option.isSome_iff_ne_none.mpr conn)
      rw [slot_socket, free] at socket
      contradiction
    exact ⟨conn, managed.buffered conn⟩
  have pos : 0 < readBufferMin := by decide
  cases h with
  | @openFd fd free =>
    obtain ⟨conn, buffer⟩ := unmanaged fd managed free
    exact .gone conn buffer
  | @listen fd serviceId free =>
    obtain ⟨conn, buffer⟩ := unmanaged fd managed free
    refine .opened conn (show _ = some { type := .listen, serviceId } from ?_) rfl rfl ?_ pos
    · simp [opFd, listen, addConn, conn, addEvent, epollAdd]
    · simp [opFd, listen, addConn, conn, addEvent, epollAdd, buffer]
  | @accept listenFd fd listener _ type free =>
    obtain ⟨conn, buffer⟩ := unmanaged fd managed free
    refine .opened conn (show _ = some { type := .client, serviceId := listener.serviceId } from ?_)
      rfl rfl ?_ pos
    · simp [opFd, onAccept, addConn, conn, epollAdd]
    · simp [opFd, onAccept, addConn, conn, epollAdd, buffer]
  | @connect fd serviceId ip free =>
    obtain ⟨conn, buffer⟩ := unmanaged fd managed free
    refine .opened conn (show _ = some { type := .client, serviceId, connecting := ip.isNone } from ?_)
      rfl rfl ?_ pos
    · cases ip <;> simp [opFd, connect, addConn, conn, modConn, addEvent, epollAdd]
    · cases ip <;> simp [opFd, connect, addConn, conn, modConn, addEvent, epollAdd, buffer]
  | bind fd serviceId datagram =>
    change (s.slot fd).Turn fd _ ((s.bind fd serviceId datagram).2.slot fd)
    unfold bind
    split
    · exact Turn.stay _ managed
    · split
      · exact Turn.stay _ managed
      · rename_i unmanaged
        have conn : s.conns fd = none := by simpa using unmanaged
        have buffer : s.writeBuffers fd = none := managed.buffered conn
        let conn' : Conn := { type := if datagram then .udp else .client, serviceId }
        refine .opened conn (show _ = some { conn' with isBind := true } from ?_) rfl rfl ?_ pos
        · simp [addConn, conn, modConn, addEvent, epollAdd, conn']
        · simp [addConn, conn, modConn, addEvent, epollAdd, buffer]
  | sendBuffer fd buff low writes => exact sendBuffer_turn managed
  | onRW => exact onRW_turn managed
  | pauseRead fd => exact setPaused_turn managed true
  | resumeRead fd => exact setPaused_turn managed false
  | lingerClose fd => exact lingerClose_turn managed
  | closeConn fd => exact .gone (closeConn_clears s fd).1 (closeConn_clears s fd).2

/-- An operation leaves a descriptor alone, or takes a turn of it. -/
theorem step_turns {s' : SocketServer} (h : Step s op s') (managed : (s.slot fd).Managed) :
    s'.slot fd = s.slot fd ∨ opFd op = fd ∧ (s.slot fd).Turn fd op (s'.slot fd) := by
  by_cases own : opFd op = fd
  · subst own
    exact Or.inr ⟨rfl, step_turn h managed⟩
  · exact Or.inl (step_other h (Ne.symm own))

end SocketServer

end Starnet
