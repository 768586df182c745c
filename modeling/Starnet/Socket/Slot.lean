import Starnet.Socket.Server

/-! What an operation of the socket engine does to its own descriptor, and that it leaves the other
descriptors alone. Invariants of single connections follow from the steps of one slot. -/

namespace Starnet

/-- What the engine and the kernel hold for one descriptor. -/
structure Slot where
  conn : Option Conn
  buffer : Option ConnWriteBuffer
  socket : Option Socket

namespace Slot

/-- The content of the two queues. -/
def wb (a : Slot) : ConnWriteBuffer := a.buffer.getD {}

/-- The registration after `EPOLL_CTL_MOD`. -/
def rearm (paused epollOut : Bool) (socket : Socket) : Socket :=
  { socket with events := socket.events.map fun _ => ⟨true, !paused, epollOut⟩ }

/-- The socket is open and in the epoll set. -/
def Registered (socket : Option Socket) : Prop := ∃ k, socket = some k ∧ k.events.isSome = true

theorem Registered.map {socket : Option Socket} (h : Registered socket) {f : Socket → Socket}
    (keeps : ∀ k, (f k).events.isSome = k.events.isSome) : Registered (socket.map f) := by
  obtain ⟨k, rfl, events⟩ := h
  exact ⟨f k, rfl, (keeps k).trans events⟩

theorem Registered.rearm {socket : Option Socket} (h : Registered socket) (paused out : Bool) :
    Registered (socket.map (rearm paused out)) :=
  h.map fun _ => Option.isSome_map

/-- A managed descriptor is registered, and only a managed one has a write buffer. -/
structure Managed (a : Slot) : Prop where
  registered : a.conn.isSome = true → Registered a.socket
  buffered : a.conn = none → a.buffer = none

theorem Managed.initial : Managed ⟨none, none, none⟩ := ⟨by simp, fun _ => rfl⟩

/-- The steps of one descriptor. `P` holds of the slot before a connection attempt succeeds. -/
inductive Step (P : Slot → Prop) : Slot → Slot → Prop
  | stay (a : Slot) : Step P a a
  | openFd {a : Slot} (free : a.conn = none) (k : Socket) : Step P a { a with socket := some k }
  | manage {a : Slot} {e : EpollEvents} (conn : Conn) (k : Socket) (free : a.conn = none)
      (sent : conn.sent = []) (calls : conn.calls = []) (events : k.events = some e) :
      Step P a ⟨some conn, a.buffer, some k⟩
  | drop (a : Slot) {b : Slot} (conn : b.conn = none) (buffer : b.buffer = none) : Step P a b
  | send {a : Slot} {conn : Conn} {wb : ConnWriteBuffer} {arm : Bool} {io : WriteIo}
      (low : Bool) (buff : List UInt8) (writes : List WriteOutcome) (managed : a.conn = some conn)
      (sends : a.wb.send ⟨conn.sent.length, low, buff⟩ ⟨writes, conn.calls⟩ = (wb, arm, io)) :
      Step P a
        ⟨some { conn with
            sent := conn.sent ++ [⟨conn.sent.length, low, buff⟩]
            calls := io.calls },
          some wb.warn.1, if arm then a.socket.map (rearm conn.paused true) else a.socket⟩
  | flush {a : Slot} {conn : Conn} {wb : ConnWriteBuffer} {io : WriteIo} {socket : Option Socket}
      (writes : List WriteOutcome) (managed : a.conn = some conn)
      (flushes : a.wb.flush ⟨writes, conn.calls⟩ = (wb, io))
      (kept : wb.hasData = true → socket = a.socket)
      (drained : wb.hasData = false → ∃ k : Socket → Socket,
        (∀ x, (k x).events.isSome = x.events.isSome) ∧ socket = a.socket.map k) :
      Step P a ⟨some { conn with calls := io.calls }, some wb, socket⟩
  | read {a : Slot} {conn : Conn} (readSize readBuffCap : Nat) (managed : a.conn = some conn) :
      Step P a { a with conn := some { conn with readSize, readBuffCap } }
  | pause {a : Slot} {conn : Conn} (paused : Bool) (managed : a.conn = some conn) :
      Step P a ⟨some { conn with paused }, a.buffer,
        a.socket.map (rearm paused (a.buffer.any ConnWriteBuffer.hasData))⟩
  | close {a : Slot} {wb : ConnWriteBuffer} (buffer : a.buffer = some wb) :
      Step P a { a with buffer := some { wb with isClosing := true } }
  | finish {a : Slot} {conn : Conn} (managed : a.conn = some conn)
      (connecting : conn.connecting = true) (drained : P a) :
      Step P a ⟨some { conn with connecting := false }, a.buffer,
        a.socket.map (rearm conn.paused false)⟩

variable {P : Slot → Prop} {a b : Slot}

theorem Managed.registered_of (m : Managed a) {conn : Conn} (managed : a.conn = some conn) :
    Registered a.socket :=
  m.registered (by rw [managed]; rfl)

theorem Managed.step (m : Managed a) (h : Step P a b) : Managed b := by
  cases h with
  | stay => exact m
  | openFd free k => exact ⟨fun managed => absurd managed (by simp [free]), m.buffered⟩
  | manage conn k free sent calls events => exact ⟨fun _ => ⟨_, rfl, by rw [events]; rfl⟩, by simp⟩
  | drop conn buffer => exact ⟨fun managed => absurd managed (by simp [conn]), fun _ => buffer⟩
  | send low buff writes managed sends =>
    refine ⟨fun _ => ?_, by simp⟩
    dsimp only
    split
    · exact (m.registered_of managed).rearm _ _
    · exact m.registered_of managed
  | @flush conn wb io socket writes managed flushes kept drained =>
    refine ⟨fun _ => ?_, by simp⟩
    cases data : wb.hasData with
    | true =>
      rw [kept data]
      exact m.registered_of managed
    | false =>
      obtain ⟨k, keeps, rfl⟩ := drained data
      exact (m.registered_of managed).map keeps
  | read readSize readBuffCap managed => exact ⟨fun _ => m.registered_of managed, by simp⟩
  | pause paused managed => exact ⟨fun _ => (m.registered_of managed).rearm _ _, by simp⟩
  | close buffer =>
    refine ⟨m.registered, fun conn => ?_⟩
    rw [m.buffered conn] at buffer
    contradiction
  | finish managed connecting drained =>
    exact ⟨fun _ => (m.registered_of managed).rearm _ _, by simp⟩

end Slot

namespace SocketServer

/-- The slot of a descriptor. -/
def slot (s : SocketServer) (fd : Int32) : Slot := ⟨s.conns fd, s.writeBuffers fd, s.sockets fd⟩

/-! ### Tables -/

section Tables

variable (s : SocketServer) (fd : Int32)

@[simp] theorem slot_conn : (s.slot fd).conn = s.conns fd := rfl

@[simp] theorem slot_buffer : (s.slot fd).buffer = s.writeBuffers fd := rfl

@[simp] theorem slot_socket : (s.slot fd).socket = s.sockets fd := rfl

@[simp] theorem conns_setConn (conn : Option Conn) : (s.setConn fd conn).conns fd = conn :=
  Function.update_self ..

@[simp] theorem conns_setBuffer (wb : Option ConnWriteBuffer) :
    (s.setBuffer fd wb).conns = s.conns := rfl

@[simp] theorem conns_setSocket (k : Option Socket) : (s.setSocket fd k).conns = s.conns := rfl

@[simp] theorem writeBuffers_setConn (conn : Option Conn) :
    (s.setConn fd conn).writeBuffers = s.writeBuffers := rfl

@[simp] theorem writeBuffers_setSocket (k : Option Socket) :
    (s.setSocket fd k).writeBuffers = s.writeBuffers := rfl

@[simp] theorem sockets_setBuffer (wb : Option ConnWriteBuffer) :
    (s.setBuffer fd wb).sockets = s.sockets := rfl

@[simp] theorem sockets_setConn (conn : Option Conn) :
    (s.setConn fd conn).sockets = s.sockets := rfl

@[simp] theorem sockets_setSocket (k : Option Socket) : (s.setSocket fd k).sockets fd = k :=
  Function.update_self ..

@[simp] theorem slot_setConn (conn : Option Conn) :
    (s.setConn fd conn).slot fd = { s.slot fd with conn } := by
  simp [slot, setConn]

@[simp] theorem slot_setBuffer (wb : Option ConnWriteBuffer) :
    (s.setBuffer fd wb).slot fd = { s.slot fd with buffer := wb } := by
  simp [slot, setBuffer]

@[simp] theorem slot_setSocket (k : Option Socket) :
    (s.setSocket fd k).slot fd = { s.slot fd with socket := k } := by
  simp [slot, setSocket]

@[simp] theorem connHas_setConn (conn : Option Conn) (p : Conn → Bool) :
    (s.setConn fd conn).connHas fd p = conn.any p := by
  simp [connHas]

@[simp] theorem connHas_setSocket (k : Option Socket) (p : Conn → Bool) :
    (s.setSocket fd k).connHas fd p = s.connHas fd p := rfl

@[simp] theorem slot_post (msg : SocketMsg) (serviceId : UInt32) :
    (s.post msg serviceId).slot fd = s.slot fd := rfl

@[simp] theorem conns_post (msg : SocketMsg) (serviceId : UInt32) :
    (s.post msg serviceId).conns = s.conns := rfl

@[simp] theorem sockets_post (msg : SocketMsg) (serviceId : UInt32) :
    (s.post msg serviceId).sockets = s.sockets := rfl

@[simp] theorem slot_close : (s.close fd).slot fd = { s.slot fd with socket := none } := by
  simp [slot, close, setSocket]

@[simp] theorem slot_removeConn :
    (s.removeConn fd).slot fd = ⟨none, none, s.sockets fd⟩ := by
  simp [removeConn]

@[simp] theorem slot_removeEvent :
    (s.removeEvent fd).slot fd =
      { s.slot fd with socket := (s.sockets fd).map fun k => { k with events := none } } := by
  simp [removeEvent]

@[simp] theorem slot_modifyEvent (out : Bool) :
    (s.modifyEvent fd out).slot fd = { s.slot fd with
      socket := (s.sockets fd).map (Slot.rearm (s.connHas fd Conn.paused) out) } := by
  simp only [modifyEvent, slot_setSocket]
  rfl

end Tables

/-! ### Other descriptors -/

section Frame

variable {s : SocketServer} {fd fd' : Int32} (h : fd' ≠ fd)
include h

theorem setConn_other (conn : Option Conn) : (s.setConn fd conn).slot fd' = s.slot fd' := by
  simp [slot, setConn, Function.update_of_ne h]

theorem setBuffer_other (wb : Option ConnWriteBuffer) :
    (s.setBuffer fd wb).slot fd' = s.slot fd' := by
  simp [slot, setBuffer, Function.update_of_ne h]

theorem setSocket_other (k : Option Socket) : (s.setSocket fd k).slot fd' = s.slot fd' := by
  simp [slot, setSocket, Function.update_of_ne h]

theorem close_other : (s.close fd).slot fd' = s.slot fd' := setSocket_other (s := s) h none

theorem removeConn_other : (s.removeConn fd).slot fd' = s.slot fd' := by
  rw [removeConn, setBuffer_other h, setConn_other h]

theorem removeEvent_other : (s.removeEvent fd).slot fd' = s.slot fd' := setSocket_other h _

theorem modifyEvent_other (out : Bool) : (s.modifyEvent fd out).slot fd' = s.slot fd' :=
  setSocket_other h _

theorem addEvent_other : (s.addEvent fd).slot fd' = s.slot fd' := setSocket_other h _

theorem modConn_other (f : Conn → Conn) : (s.modConn fd f).slot fd' = s.slot fd' :=
  setConn_other h _

theorem addConn_other (conn : Conn) : (s.addConn fd conn).slot fd' = s.slot fd' := by
  unfold addConn
  split
  · rfl
  · exact setConn_other h _

theorem dropConn_other : (s.dropConn fd).slot fd' = s.slot fd' := by
  simp only [dropConn, removeEvent_other h]
  split
  · exact removeConn_other h
  · rw [close_other h, removeConn_other h]

theorem closeConn_other : (s.closeConn fd).slot fd' = s.slot fd' := by
  simp only [closeConn]
  split <;> split <;>
    simp only [removeEvent_other h, close_other h, removeConn_other h]

theorem notifyClose_other (conn : Conn) : (s.notifyClose fd conn).slot fd' = s.slot fd' := by
  simp only [notifyClose, removeEvent_other h]
  split
  · rw [removeConn_other h, slot_post]
  · rw [close_other h, removeConn_other h, slot_post]

theorem lingerClose_other : (s.lingerClose fd).slot fd' = s.slot fd' := by
  unfold lingerClose
  split
  · exact dropConn_other h
  · split
    · rfl
    · dsimp only
      split
      · exact setBuffer_other h _
      · rw [dropConn_other h, setBuffer_other h]

theorem sendBuffer_other (buff : List UInt8) (low : Bool) (writes : List WriteOutcome) :
    (s.sendBuffer fd buff low writes).2.slot fd' = s.slot fd' := by
  unfold sendBuffer
  split
  · rfl
  · dsimp only
    split
    · rfl
    · split <;> split <;>
        simp only [slot_post, modifyEvent_other h, setConn_other h, setBuffer_other h]

theorem flushWriteable_other (conn : Conn) (writes : List WriteOutcome) :
    (s.flushWriteable fd conn writes).2.2.slot fd' = s.slot fd' := by
  unfold flushWriteable
  split
  · rfl
  · rw [setConn_other h, setBuffer_other h]

theorem finishWriteable_other (conn : Conn) (emptied needNotify : Bool) :
    (s.finishWriteable fd conn emptied needNotify).slot fd' = s.slot fd' := by
  unfold finishWriteable
  split
  · rw [slot_post, shutdownRead, setSocket_other h]
  · split
    · exact modifyEvent_other h _
    · rfl

theorem onWriteable_other (writes : List WriteOutcome) :
    (s.onWriteable fd writes).slot fd' = s.slot fd' := by
  unfold onWriteable
  split
  · rfl
  · rw [finishWriteable_other h, flushWriteable_other h]

theorem readRound_other (outcome : ReadOutcome) :
    (s.readRound fd outcome).2.slot fd' = s.slot fd' := by
  unfold readRound
  split
  · rfl
  · cases outcome with
    | data bytes =>
      dsimp only
      split
      · rw [setConn_other h, slot_post, setConn_other h]
      · rw [notifyClose_other h, setConn_other h]
    | eof | error => exact (notifyClose_other h _).trans (setConn_other h _)
    | eagain | eintr => exact setConn_other h _

theorem readData_other (outcomes : List ReadOutcome) :
    (s.readData fd outcomes).slot fd' = s.slot fd' := by
  induction outcomes generalizing s with
  | nil => exact readRound_other h _
  | cons outcome outcomes ih =>
    have round := readRound_other (s := s) h outcome
    unfold readData
    split <;> rename_i eq <;> rw [eq] at round
    · exact ih.trans round
    · exact round

theorem onConnectFinish_other (conn : Conn) (answers : Answers) :
    (s.onConnectFinish fd conn answers).slot fd' = s.slot fd' := by
  unfold onConnectFinish
  split
  · rw [removeEvent_other h, close_other h, removeConn_other h, slot_post]
  · rw [slot_post, modifyEvent_other h, modConn_other h]

theorem setPaused_other (paused : Bool) :
    (s.setPaused fd paused).2.slot fd' = s.slot fd' := by
  unfold setPaused
  split
  · rfl
  · rw [modifyEvent_other h, modConn_other h]

end Frame

theorem readUdp_slot (s : SocketServer) (fd fd' : Int32) (serviceId : UInt32)
    (outcomes : List RecvOutcome) : (s.readUdp fd serviceId outcomes).slot fd' = s.slot fd' := by
  fun_induction readUdp s fd serviceId outcomes with
  | case1 s payload udpAddr outcomes buff h ih => exact ih
  | case2 => rfl
  | case3 => rfl

theorem onRW_other {s : SocketServer} {fd fd' : Int32} (h : fd' ≠ fd) (r w : Bool)
    (answers : Answers) : (s.onRW fd r w answers).slot fd' = s.slot fd' := by
  unfold onRW
  extract_lets t
  have written : t.slot fd' = s.slot fd' := by
    simp only [t]
    split
    · split
      · split
        · exact onConnectFinish_other h _ _
        · exact onWriteable_other h _
      · rfl
    · rfl
  rw [← written]
  split
  · split
    · split
      · exact readUdp_slot ..
      · exact readData_other h _
    · rfl
  · rfl

/-- The descriptor of an operation. -/
def opFd : SocketOp → Int32
  | .openFd fd | .listen fd _ | .accept _ fd | .connect fd _ _ | .bind fd _ _
  | .sendBuffer fd _ _ _ | .onRW fd _ _ _ | .pauseRead fd | .resumeRead fd | .lingerClose fd
  | .closeConn fd => fd

/-- An operation leaves the other descriptors alone. -/
theorem step_other {s s' : SocketServer} {op : SocketOp} {fd : Int32} (h : Step s op s')
    (ne : fd ≠ opFd op) : s'.slot fd = s.slot fd := by
  cases h with
  | @openFd f free => exact setSocket_other ne _
  | @listen f serviceId free =>
    replace ne : fd ≠ f := ne
    rw [listen, addEvent_other ne, addConn_other ne, setSocket_other ne]
  | @accept listenFd f conn listener type free =>
    replace ne : fd ≠ f := ne
    rw [onAccept, slot_post, epollAdd, setSocket_other ne, addConn_other ne, setSocket_other ne]
  | @connect f serviceId ip free =>
    replace ne : fd ≠ f := ne
    unfold connect
    split
    · rw [slot_post, addEvent_other ne, modConn_other ne, addConn_other ne, setSocket_other ne]
    · rw [modifyEvent_other ne, addEvent_other ne, modConn_other ne, addConn_other ne,
        setSocket_other ne]
  | bind f serviceId datagram =>
    replace ne : fd ≠ f := ne
    unfold bind
    split
    · rfl
    · split
      · rfl
      · rw [addEvent_other ne, modConn_other ne, addConn_other ne]
  | sendBuffer => exact sendBuffer_other ne _ _ _
  | onRW managed type => exact onRW_other ne _ _ _
  | pauseRead f =>
    exact setPaused_other ne true
  | resumeRead f => exact setPaused_other ne false
  | lingerClose => exact lingerClose_other ne
  | closeConn => exact closeConn_other ne

/-! ### The own descriptor -/

section Own

variable {P : Slot → Prop} {s : SocketServer} {fd : Int32} {conn : Conn}

theorem connHas_eq {p : Conn → Bool} (managed : s.conns fd = some conn) :
    s.connHas fd p = p conn := by
  rw [connHas, managed]
  rfl

theorem notifyClose_slot (conn : Conn) :
    ((s.notifyClose fd conn).slot fd).conn = none ∧
      ((s.notifyClose fd conn).slot fd).buffer = none := by
  unfold notifyClose
  cases conn.isBind with
  | true => simp
  | false => simp

theorem closeConn_clears (s : SocketServer) (fd : Int32) :
    ((s.closeConn fd).slot fd).conn = none ∧ ((s.closeConn fd).slot fd).buffer = none := by
  unfold closeConn
  cases s.connHas fd Conn.isBind with
  | true => cases (s.conns fd).isSome <;> exact ⟨by simp, by simp⟩
  | false => cases (s.conns fd).isSome <;> exact ⟨by simp, by simp⟩

theorem dropConn_clears (s : SocketServer) (fd : Int32) :
    ((s.dropConn fd).slot fd).conn = none ∧ ((s.dropConn fd).slot fd).buffer = none := by
  unfold dropConn
  cases s.connHas fd Conn.isBind with
  | true => exact ⟨by simp, by simp⟩
  | false => exact ⟨by simp, by simp⟩

theorem dropConn_slot (a : Slot) : Slot.Step P a ((s.dropConn fd).slot fd) :=
  .drop a (dropConn_clears s fd).1 (dropConn_clears s fd).2

theorem closeConn_slot : Slot.Step P (s.slot fd) ((s.closeConn fd).slot fd) :=
  .drop _ (closeConn_clears s fd).1 (closeConn_clears s fd).2

theorem lingerClose_slot : Slot.Step P (s.slot fd) ((s.lingerClose fd).slot fd) := by
  unfold lingerClose
  split
  · exact dropConn_slot _
  · rename_i wb buffer
    split
    · exact .stay _
    · dsimp only
      split
      · rw [slot_setBuffer]
        exact .close buffer
      · exact dropConn_slot _

theorem setPaused_slot (paused : Bool) :
    Slot.Step P (s.slot fd) ((s.setPaused fd paused).2.slot fd) := by
  unfold setPaused
  split
  · exact .stay _
  · rename_i conn managed
    have step := Slot.Step.pause (P := P) (a := s.slot fd) paused managed
    simpa [modConn, managed, connHas_eq] using step

theorem sendBuffer_slot (buff : List UInt8) (low : Bool) (writes : List WriteOutcome) :
    Slot.Step P (s.slot fd) ((s.sendBuffer fd buff low writes).2.slot fd) := by
  unfold sendBuffer
  split
  · exact .stay _
  · rename_i conn managed
    dsimp only
    split
    · exact .stay _
    · rcases sends : ((s.writeBuffers fd).getD {}).send ⟨conn.sent.length, low, buff⟩
        ⟨writes, conn.calls⟩ with ⟨wb, arm, io⟩
      have step := Slot.Step.send (P := P) (a := s.slot fd) low buff writes managed sends
      rcases warned : wb.warn with ⟨wb', warnKb⟩
      rw [warned] at step
      cases arm <;> cases warnKb <;> simpa [warned, connHas_eq] using step

theorem onWriteable_slot (writes : List WriteOutcome) :
    Slot.Step P (s.slot fd) ((s.onWriteable fd writes).slot fd) := by
  unfold onWriteable
  split
  · exact .stay _
  · rename_i conn managed
    cases buffer : s.writeBuffers fd with
    | none =>
      rw [flushWriteable, buffer]
      exact .stay _
    | some wb =>
      rcases flushes : wb.flush ⟨writes, conn.calls⟩ with ⟨wb', io⟩
      have held : (s.slot fd).wb.flush ⟨writes, conn.calls⟩ = (wb', io) := by
        rw [Slot.wb, slot_buffer, buffer]
        exact flushes
      have step := fun socket => @Slot.Step.flush P _ _ _ _ socket writes managed held
      cases data : wb'.hasData with
      | true =>
        simpa [finishWriteable, flushWriteable, buffer, flushes, data] using
          step (s.sockets fd) (fun _ => rfl)
          (by simp [data])
      | false =>
        cases closing : wb'.isClosing with
        | true =>
          simpa [finishWriteable, flushWriteable, buffer, flushes, data, closing, shutdownRead] using
            step ((s.sockets fd).map fun k => { k with readShut := true })
              (by simp [data]) fun _ =>
                ⟨fun k => { k with readShut := true }, fun _ => rfl, rfl⟩
        | false =>
          simpa [finishWriteable, flushWriteable, buffer, flushes, data, closing] using
            step ((s.sockets fd).map (Slot.rearm conn.paused false))
              (by simp [data]) fun _ => ⟨_, fun x => by simp [Slot.rearm], rfl⟩

theorem growBuffer_eq (conn : Conn) : ∃ cap, growBuffer conn = { conn with readBuffCap := cap } := by
  unfold growBuffer
  split
  · exact ⟨_, rfl⟩
  · exact ⟨conn.readBuffCap, rfl⟩

theorem adaptReadSize_eq (conn : Conn) (len : Nat) :
    ∃ size, adaptReadSize conn len = { conn with readSize := size } := by
  unfold adaptReadSize
  split_ifs <;> exact ⟨_, rfl⟩

/-- Reading changes the sizes of the read buffer or closes the connection. -/
theorem readRound_slot (outcome : ReadOutcome) (managed : s.conns fd = some conn) :
    (∃ readSize readBuffCap, (s.readRound fd outcome).2.slot fd =
      { s.slot fd with conn := some { conn with readSize, readBuffCap } }) ∨
    ((s.readRound fd outcome).2.slot fd).conn = none ∧
      ((s.readRound fd outcome).2.slot fd).buffer = none := by
  obtain ⟨cap, grown⟩ := growBuffer_eq conn
  rw [readRound, managed]
  dsimp only
  rw [grown]
  cases outcome with
  | data bytes =>
    dsimp only
    split
    · obtain ⟨size, adapted⟩ := adaptReadSize_eq { conn with readBuffCap := cap }
        (bytes.take conn.readSize).length
      rw [adapted]
      exact Or.inl ⟨size, cap, by simp⟩
    · exact Or.inr (notifyClose_slot _)
  | eof | error => exact Or.inr (notifyClose_slot _)
  | eagain | eintr => exact Or.inl ⟨conn.readSize, cap, by simp⟩

theorem readData_unmanaged (outcomes : List ReadOutcome) (gone : s.conns fd = none) :
    s.readData fd outcomes = s := by
  cases outcomes with
  | nil => rw [readData, readRound, gone]
  | cons outcome outcomes => rw [readData, readRound, gone]

theorem readData_slot (outcomes : List ReadOutcome) (managed : s.conns fd = some conn) :
    Slot.Step P (s.slot fd) ((s.readData fd outcomes).slot fd) := by
  suffices (∃ readSize readBuffCap, (s.readData fd outcomes).slot fd =
      { s.slot fd with conn := some { conn with readSize, readBuffCap } }) ∨
      ((s.readData fd outcomes).slot fd).conn = none ∧
        ((s.readData fd outcomes).slot fd).buffer = none by
    rcases this with ⟨readSize, readBuffCap, eq⟩ | ⟨dropped, buffer⟩
    · rw [eq]
      exact .read readSize readBuffCap managed
    · exact .drop _ dropped buffer
  induction outcomes generalizing s conn with
  | nil => exact readRound_slot _ managed
  | cons outcome outcomes ih =>
    have round := readRound_slot outcome managed
    unfold readData
    split
    · rename_i t eq
      rw [eq] at round
      rcases round with ⟨readSize, readBuffCap, round⟩ | ⟨dropped, buffer⟩
      · have kept := ih (s := t) (congrArg Slot.conn round)
        rw [round] at kept
        exact kept
      · refine Or.inr ?_
        rw [readData_unmanaged outcomes dropped]
        exact ⟨dropped, buffer⟩
    · rename_i t eq
      rw [eq] at round
      exact round

theorem onConnectFinish_slot (answers : Answers) (managed : s.conns fd = some conn)
    (connecting : conn.connecting = true) (drained : answers.soError = none → P (s.slot fd)) :
    Slot.Step P (s.slot fd) ((s.onConnectFinish fd conn answers).slot fd) := by
  unfold onConnectFinish
  split
  · exact .drop _ (by simp) (by simp)
  · rename_i ok
    have step := Slot.Step.finish (P := P) managed connecting (drained ok)
    simpa [modConn, managed] using step

/-- The operation completes a connection attempt with success. -/
def CompletesConnect (s : SocketServer) : SocketOp → Prop
  | .onRW fd _ w answers => w = true ∧ s.connHas fd Conn.connecting = true ∧ answers.soError = none
  | _ => False

theorem onRW_slot {r w : Bool} {answers : Answers}
    (drained : s.CompletesConnect (.onRW fd r w answers) → P (s.slot fd)) :
    ∃ mid, Slot.Step P (s.slot fd) mid ∧ Slot.Step P mid ((s.onRW fd r w answers).slot fd) := by
  unfold onRW
  extract_lets t
  refine ⟨t.slot fd, ?_, ?_⟩
  · simp only [t]
    split
    · rename_i conn managed
      split
      · rename_i write
        split
        · rename_i connecting
          exact onConnectFinish_slot answers managed connecting fun ok =>
            drained ⟨write, (connHas_eq managed).trans connecting, ok⟩
        · exact onWriteable_slot _
      · exact .stay _
    · exact .stay _
  · split
    · rename_i conn managed
      split
      · split
        · rw [readUdp_slot]
          exact .stay _
        · exact readData_slot _ managed
      · exact .stay _
    · exact .stay _

/-- A step is at most two steps of the slot of its descriptor. -/
theorem step_slot {s' : SocketServer} {op : SocketOp} (h : Step s op s')
    (managed : (s.slot (opFd op)).Managed) (drained : s.CompletesConnect op → P (s.slot (opFd op))) :
    ∃ mid, Slot.Step P (s.slot (opFd op)) mid ∧ Slot.Step P mid (s'.slot (opFd op)) := by
  have unmanaged : ∀ fd, (s.slot fd).Managed → s.sockets fd = none → s.conns fd = none := by
    intro fd managed free
    by_contra conn
    obtain ⟨k, socket, -⟩ := managed.registered (Option.isSome_iff_ne_none.mpr conn)
    rw [slot_socket, free] at socket
    contradiction
  cases h with
  | @openFd fd free =>
    refine ⟨_, .stay _, ?_⟩
    change Slot.Step P (s.slot fd) ((s.setSocket fd (some {})).slot fd)
    rw [slot_setSocket]
    exact .openFd (unmanaged fd managed free) {}
  | @listen fd serviceId free =>
    have conn := unmanaged fd managed free
    have step := Slot.Step.manage (P := P) (a := s.slot fd) { type := .listen, serviceId }
      { events := some ⟨true, true, false⟩ } conn rfl rfl rfl
    refine ⟨_, .stay _, ?_⟩
    simpa [opFd, listen, addConn, conn, addEvent, epollAdd] using step
  | @accept listenFd fd listener _ type free =>
    have conn := unmanaged fd managed free
    have step := Slot.Step.manage (P := P) (a := s.slot fd)
      { type := .client, serviceId := listener.serviceId }
      { events := some ⟨true, true, false⟩ } conn rfl rfl rfl
    refine ⟨_, .stay _, ?_⟩
    simpa [opFd, onAccept, addConn, conn, epollAdd] using step
  | @connect fd serviceId ip free =>
    have conn := unmanaged fd managed free
    have step := fun connecting out => Slot.Step.manage (P := P) (a := s.slot fd)
      { type := .client, serviceId, connecting } { events := some ⟨true, true, out⟩ } conn rfl
      rfl rfl
    refine ⟨_, .stay _, ?_⟩
    cases ip with
    | some ip =>
      simpa [opFd, connect, addConn, conn, modConn, addEvent, epollAdd] using step false false
    | none =>
      simpa [opFd, connect, addConn, conn, modConn, addEvent, epollAdd, Slot.rearm] using
        step true true
  | bind fd serviceId datagram =>
    refine ⟨_, .stay _, ?_⟩
    change Slot.Step P (s.slot fd) ((s.bind fd serviceId datagram).2.slot fd)
    unfold bind
    split
    · exact .stay _
    · rename_i opened
      obtain ⟨k, socket⟩ := Option.ne_none_iff_exists'.mp (by simpa using opened)
      split
      · exact .stay _
      · rename_i unmanaged
        have conn : s.conns fd = none := by simpa using unmanaged
        have step := Slot.Step.manage (P := P) (a := s.slot fd)
          { type := if datagram then .udp else .client, serviceId, isBind := true }
          { k with events := some (k.events.getD ⟨true, true, false⟩) } conn rfl rfl rfl
        simpa [addConn, conn, modConn, addEvent, epollAdd, socket] using step
  | sendBuffer fd buff low writes => exact ⟨_, .stay _, sendBuffer_slot buff low writes⟩
  | onRW => exact onRW_slot drained
  | pauseRead => exact ⟨_, .stay _, setPaused_slot true⟩
  | resumeRead => exact ⟨_, .stay _, setPaused_slot false⟩
  | lingerClose => exact ⟨_, .stay _, lingerClose_slot⟩
  | closeConn => exact ⟨_, .stay _, closeConn_slot⟩

end Own

/-! ### Calls that post nothing -/

theorem posted_addConn {s : SocketServer} {fd : Int32} (conn : Conn) :
    (s.addConn fd conn).posted = s.posted := by
  unfold addConn
  split <;> rfl

theorem posted_dropConn (s : SocketServer) (fd : Int32) : (s.dropConn fd).posted = s.posted := by
  simp only [dropConn]
  split <;> rfl

theorem posted_lingerClose (s : SocketServer) (fd : Int32) : (s.lingerClose fd).posted = s.posted := by
  unfold lingerClose
  split
  · exact posted_dropConn s fd
  split
  · rfl
  dsimp only
  split
  · rfl
  · exact posted_dropConn _ fd

theorem posted_closeConn (s : SocketServer) (fd : Int32) : (s.closeConn fd).posted = s.posted := by
  simp only [closeConn]
  split <;> split <;> rfl

theorem posted_setPaused (s : SocketServer) (fd : Int32) (paused : Bool) :
    (s.setPaused fd paused).2.posted = s.posted := by
  unfold setPaused
  split <;> rfl

/-! ### Invariants of slots -/

/-- A property that the steps of a managed slot keep is kept by an operation. -/
theorem step_slots {P I : Slot → Prop} {s s' : SocketServer} {op : SocketOp} (h : Step s op s')
    (keep : ∀ a b, a.Managed → I a → Slot.Step P a b → I b)
    (drained : s.CompletesConnect op → P (s.slot (opFd op)))
    (before : ∀ fd, (s.slot fd).Managed ∧ I (s.slot fd)) (fd : Int32) :
    (s'.slot fd).Managed ∧ I (s'.slot fd) := by
  by_cases own : fd = opFd op
  · subst own
    obtain ⟨managed, inv⟩ := before (opFd op)
    obtain ⟨mid, first, second⟩ := step_slot h managed drained
    have midManaged := managed.step first
    exact ⟨midManaged.step second, keep _ _ midManaged (keep _ _ managed inv first) second⟩
  · rw [step_other h own]
    exact before fd

theorem managed_of_run {s : SocketServer} {tr : List SocketOp} (run : socketServer.Run s tr)
    (fd : Int32) : (s.slot fd).Managed := by
  have slots : ∀ fd, (s.slot fd).Managed ∧ True := by
    refine run.stateInvariant (P := fun s => ∀ fd, (s.slot fd).Managed ∧ True) ?_ ?_
    · rintro _ rfl fd
      exact ⟨Slot.Managed.initial, trivial⟩
    · intro s op s' before step
      exact step_slots (P := fun _ => True) step (fun _ _ _ _ _ => trivial) (fun _ => trivial) before
  exact (slots fd).1

end SocketServer

end Starnet
