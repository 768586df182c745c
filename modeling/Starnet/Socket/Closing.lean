import Starnet.Socket.Slot

/-! The end of a connection. `NotifyClose` posts `CLOSE` and removes the connection, but the
`CLOSE` of `OnWriteable` for a lingering connection leaves it registered, so that a later event can
post again. -/

namespace Starnet

/-- After the first `CLOSE` there is no `DATA`, `WARNING` or further `CLOSE`. -/
def OneClose (msgs : List SocketMsg) : Prop :=
  ∀ before m after, msgs = before ++ m :: after → m.subtype = .close →
    ∀ m' ∈ after, m'.subtype ≠ .data ∧ m'.subtype ≠ .warning ∧ m'.subtype ≠ .close

theorem OneClose.append {msgs : List SocketMsg} (m : SocketMsg)
    (alive : ∀ m ∈ msgs, m.subtype ≠ .close) : OneClose (msgs ++ [m]) := by
  intro before close after eq closes m' mem
  rcases List.eq_nil_or_concat after with rfl | ⟨after, last, rfl⟩
  · cases mem
  · rw [List.concat_eq_append, ← List.cons_append, ← List.append_assoc] at eq
    obtain ⟨rfl, -⟩ := List.append_inj' eq rfl
    exact absurd closes (alive close (by simp))

theorem OneClose.other {msgs : List SocketMsg} (once : OneClose msgs) (m : SocketMsg)
    (other : m.subtype ≠ .data ∧ m.subtype ≠ .warning ∧ m.subtype ≠ .close) :
    OneClose (msgs ++ [m]) := by
  intro before close after eq closes m' mem
  rcases List.eq_nil_or_concat after with rfl | ⟨after, last, rfl⟩
  · cases mem
  · rw [List.concat_eq_append, ← List.cons_append, ← List.append_assoc] at eq
    obtain ⟨rfl, same⟩ := List.append_inj' eq rfl
    rw [List.concat_eq_append, List.mem_append, ← same, List.mem_singleton] at mem
    rcases mem with mem | rfl
    · exact once before close after rfl closes m' mem
    · exact other

/-- The kernel accepts every object of the queue in full. -/
def AcceptsAll : List WriteOutcome → List WriteObject → Prop
  | _, [] => True
  | .wrote n :: writes, obj :: queue => obj.rest.length ≤ n ∧ AcceptsAll writes queue
  | _, _ :: _ => False

theorem AcceptsAll.nil (writes : List WriteOutcome) : AcceptsAll writes [] := by
  cases writes <;> trivial

theorem AcceptsAll.append {queue : List WriteObject} : ∀ {writes : List WriteOutcome}
    {others : List WriteObject}, AcceptsAll writes queue →
      AcceptsAll (writes.drop queue.length) others → AcceptsAll writes (queue ++ others) := by
  induction queue with
  | nil => exact fun _ later => later
  | cons obj queue ih =>
    intro writes others first later
    cases writes with
    | nil => cases first
    | cons outcome writes =>
      cases outcome with
      | wrote n => exact ⟨first.1, ih first.2 later⟩
      | eagain | eintr | error => cases first

/-- The front is written in full when the next answer accepts it. -/
theorem writeFrontFromList_one {queues : List WriteObject → List WriteObject × List WriteObject}
    {obj : WriteObject} {others lst : List WriteObject} {written written' : Nat} {io io' : WriteIo}
    (one : writeFrontFromList queues (obj :: others) written io = (1, lst, written', io')) :
    (∃ n answers, io.answers = .wrote n :: answers ∧ obj.rest.length ≤ n) ∧
      io'.answers = io.answers.tail := by
  rcases answer : (io.answers.headD .eagain).clip obj.rest.length with n | _ | _ | _
  · simp only [writeFrontFromList, WriteIo.write_eq answer] at one
    split at one
    · rename_i full
      cases one
      refine ⟨?_, rfl⟩
      cases next : io.answers with
      | nil =>
        rw [next] at answer
        cases answer
      | cons outcome answers =>
        rw [next, List.headD_cons] at answer
        cases outcome with
        | wrote k =>
          have len := obj.rest_length
          rw [WriteOutcome.clip, WriteOutcome.wrote.injEq] at answer
          exact ⟨k, answers, rfl, by omega⟩
        | eagain | eintr | error => cases answer
    · split at one <;> cases one
  all_goals
    simp only [writeFrontFromList, WriteIo.write_eq answer] at one
    cases one

theorem writeAll_nil {queues : List WriteObject → List WriteObject × List WriteObject}
    {lst : List WriteObject} {written written' : Nat} {io io' : WriteIo}
    (all : writeAll queues lst written io = ([], written', io')) :
    AcceptsAll io.answers lst ∧ io'.answers = io.answers.drop lst.length := by
  induction lst generalizing written io with
  | nil =>
    rw [writeAll] at all
    cases all
    exact ⟨.nil _, rfl⟩
  | cons obj others ih =>
    rw [writeAll] at all
    split at all
    · rename_i lst written₁ io₁ front
      obtain ⟨⟨n, answers, eq, bound⟩, rest⟩ := writeFrontFromList_one front
      obtain ⟨accepts, left⟩ := ih all
      rw [eq] at rest ⊢
      rw [rest] at accepts left
      exact ⟨⟨bound, accepts⟩, left⟩
    · rename_i lst written₁ io₁ other front
      exfalso
      rcases writeFrontFromList_cases queues obj others written io with
        ⟨answers, eq⟩ | ⟨code, obj', k, answers, -, -, -, -, eq⟩
      · rw [eq] at front
        cases front
        exact other rfl
      · rw [eq] at front
        cases front
        cases all

namespace ConnWriteBuffer

/-- A flush that empties the queues has had everything accepted. -/
theorem acceptsAll_of_flush {wb : ConnWriteBuffer} {io : WriteIo}
    (emptied : (wb.flush io).1.hasData = false) : AcceptsAll io.answers (wb.objs ++ wb.low) := by
  obtain ⟨objs, written, io₁, high, ⟨both, flushes⟩ | ⟨rfl, low, written', io₂, lows, flushes⟩⟩ :=
    wb.flush_cases io
  · rw [flushes] at emptied
    obtain ⟨rfl, -⟩ : objs = [] ∧ wb.low = [] := by simpa [hasData] using emptied
    rw [both rfl, List.append_nil]
    exact (writeAll_nil high).1
  · rw [flushes] at emptied
    have low_nil : low = [] := by
      cases low with
      | nil => rfl
      | cons obj low => simp [hasData] at emptied
    subst low_nil
    obtain ⟨accepts, left⟩ := writeAll_nil high
    have later := (writeAll_nil lows).1
    rw [left] at later
    exact accepts.append later

theorem isClosing_flush (wb : ConnWriteBuffer) (io : WriteIo) :
    (wb.flush io).1.isClosing = wb.isClosing := by
  obtain ⟨objs, written, io₁, -, ⟨-, eq⟩ | ⟨-, low, written', io₂, -, eq⟩⟩ := wb.flush_cases io
  · rw [eq]
  · rw [eq]

end ConnWriteBuffer

/-! ### One connection -/

/-- The calls and events of one connection. -/
def SocketOp.OnConn (fd : Int32) : SocketOp → Prop
  | .sendBuffer fd' _ _ _ | .lingerClose fd' | .onRW fd' _ _ _ | .pauseRead fd' | .resumeRead fd' =>
    fd' = fd
  | _ => False

/-- The engine over one managed TCP connection, from when nothing is posted for it. -/
def oneConnection (fd : Int32) : Transition.System SocketServer SocketOp where
  init s := s.posted = [] ∧ (s.slot fd).wb.isClosing = false ∧
    ∃ conn, s.conns fd = some conn ∧ conn.type = .client
  step s op s' := SocketServer.Step s op s' ∧ op.OnConn fd

namespace SocketServer

/-- An event of a connection that lingers does not go on after its queues are empty: it is not
writable when they are, and what it reads after they are, if it reads, has to wait. -/
def LingersQuietly (s : SocketServer) : SocketOp → Prop
  | .onRW fd r w answers => ∀ conn wb, s.conns fd = some conn → conn.connecting = false →
      s.writeBuffers fd = some wb → wb.isClosing = true →
      (wb.hasData = false → w = false) ∧
      (wb.hasData = false ∨ w = true ∧ AcceptsAll answers.writes (wb.objs ++ wb.low) →
        r = true → conn.paused = false →
        answers.reads.headD .eagain = .eagain ∨ answers.reads.headD .eagain = .eintr)
  | _ => True

/-! ### Posts -/

section Posts

variable (s : SocketServer) (fd : Int32)

/-- The messages posted, without their services. -/
def msgs : List SocketMsg := s.posted.map Prod.fst

@[simp] theorem msgs_setConn (conn : Option Conn) : (s.setConn fd conn).msgs = s.msgs := rfl

@[simp] theorem msgs_modConn (f : Conn → Conn) : (s.modConn fd f).msgs = s.msgs := rfl

@[simp] theorem msgs_setBuffer (wb : Option ConnWriteBuffer) :
    (s.setBuffer fd wb).msgs = s.msgs := rfl

@[simp] theorem msgs_setSocket (k : Option Socket) : (s.setSocket fd k).msgs = s.msgs := rfl

@[simp] theorem msgs_close : (s.close fd).msgs = s.msgs := rfl

@[simp] theorem msgs_removeConn : (s.removeConn fd).msgs = s.msgs := rfl

@[simp] theorem msgs_removeEvent : (s.removeEvent fd).msgs = s.msgs := rfl

@[simp] theorem msgs_modifyEvent (out : Bool) : (s.modifyEvent fd out).msgs = s.msgs := rfl

@[simp] theorem msgs_shutdownRead : (s.shutdownRead fd).msgs = s.msgs := rfl

@[simp] theorem msgs_post (msg : SocketMsg) (serviceId : UInt32) :
    (s.post msg serviceId).msgs = s.msgs ++ [msg] := by
  rw [msgs, post, List.map_append]
  rfl

theorem msgs_lingerClose : (s.lingerClose fd).msgs = s.msgs :=
  congrArg (List.map Prod.fst) (posted_lingerClose s fd)

theorem msgs_setPaused (paused : Bool) : (s.setPaused fd paused).2.msgs = s.msgs :=
  congrArg (List.map Prod.fst) (posted_setPaused s fd paused)

theorem msgs_notifyClose (conn : Conn) :
    (s.notifyClose fd conn).msgs = s.msgs ++ [socketMsg .close fd] := by
  unfold notifyClose
  cases conn.isBind <;> simp

end Posts

/-! ### The end of the connection -/

/-- No `CLOSE` is posted. -/
def Alive (s : SocketServer) : Prop := ∀ m ∈ s.msgs, m.subtype ≠ .close

/-- The connection lingers with empty queues. -/
def Lingered (s : SocketServer) (fd : Int32) : Prop :=
  ∃ conn wb, s.conns fd = some conn ∧ conn.connecting = false ∧ s.writeBuffers fd = some wb ∧
    wb.isClosing = true ∧ wb.hasData = false

/-- `CLOSE` is posted, and the connection is gone or lingers. -/
structure Over (s : SocketServer) (fd : Int32) : Prop where
  once : OneClose s.msgs
  ended : s.conns fd = none ∨ s.Lingered fd

variable {s s' : SocketServer} {fd : Int32}

theorem Alive.oneClose (alive : s.Alive) : OneClose s.msgs := by
  intro before m after eq closes
  exact absurd closes (alive m (by simp [eq]))

theorem Alive.of_msgs (alive : s.Alive) (same : s'.msgs = s.msgs) : s'.Alive := by
  rw [Alive, same]
  exact alive

theorem Alive.post (alive : s.Alive) (m : SocketMsg) (serviceId : UInt32)
    (other : m.subtype ≠ .close) : (s.post m serviceId).Alive := by
  intro m' mem
  rw [msgs_post, List.mem_append, List.mem_singleton] at mem
  rcases mem with mem | rfl
  · exact alive m' mem
  · exact other

theorem Over.of_msgs (past : s.Over fd) (same : s'.msgs = s.msgs)
    (ended : s'.conns fd = none ∨ s'.Lingered fd) : s'.Over fd := by
  refine ⟨?_, ended⟩
  rw [same]
  exact past.once

theorem Alive.close (alive : s.Alive) {m : SocketMsg} (posts : s'.msgs = s.msgs ++ [m])
    (ended : s'.conns fd = none ∨ s'.Lingered fd) : s'.Over fd := by
  refine ⟨?_, ended⟩
  rw [posts]
  exact OneClose.append m alive

theorem Alive.notifyClose (alive : s.Alive) (conn : Conn) : (s.notifyClose fd conn).Over fd :=
  alive.close (msgs_notifyClose s fd conn) (Or.inl (notifyClose_slot conn).1)

/-! ### Reading -/

theorem Alive.readRound (alive : s.Alive) (outcome : ReadOutcome) :
    (s.readRound fd outcome).2.Alive ∨ (s.readRound fd outcome).2.Over fd ∧
      (s.readRound fd outcome).2.conns fd = none := by
  unfold SocketServer.readRound
  split
  · exact Or.inl alive
  · rename_i conn managed
    have grown : (s.setConn fd (some (growBuffer conn))).Alive := alive
    cases outcome with
    | data bytes =>
      dsimp only
      split
      · have posted := grown.post { socketMsg .data fd with buff := bytes.take (growBuffer conn).readSize }
          (growBuffer conn).serviceId nofun
        exact Or.inl (posted.of_msgs rfl)
      · exact Or.inr ⟨grown.notifyClose _, (notifyClose_slot _).1⟩
    | eof | error => exact Or.inr ⟨grown.notifyClose _, (notifyClose_slot _).1⟩
    | eagain | eintr => exact Or.inl grown

theorem Alive.readData (alive : s.Alive) (outcomes : List ReadOutcome) :
    (s.readData fd outcomes).Alive ∨ (s.readData fd outcomes).Over fd := by
  induction outcomes generalizing s with
  | nil => exact (alive.readRound .eagain).imp id And.left
  | cons outcome outcomes ih =>
    have round : (s.readRound fd outcome).2.Alive ∨ _ := alive.readRound outcome
    unfold SocketServer.readData
    split
    · rename_i t eq
      rw [eq] at round
      rcases round with alive | ⟨past, gone⟩
      · exact ih alive
      · rw [readData_unmanaged outcomes gone]
        exact Or.inr past
    · rename_i t eq
      rw [eq] at round
      exact round.imp id And.left

/-- A read that has to wait posts nothing. -/
theorem readData_waits {outcomes : List ReadOutcome} {conn : Conn} (managed : s.conns fd = some conn)
    (waits : outcomes.headD .eagain = .eagain ∨ outcomes.headD .eagain = .eintr) :
    s.readData fd outcomes = s.setConn fd (some (growBuffer conn)) := by
  cases outcomes with
  | nil => rw [SocketServer.readData, SocketServer.readRound, managed]
  | cons outcome outcomes =>
    rw [List.headD_cons] at waits
    rcases waits with rfl | rfl <;>
      rw [SocketServer.readData, SocketServer.readRound, managed]

theorem Alive.readUdp (alive : s.Alive) (serviceId : UInt32) (outcomes : List RecvOutcome) :
    (s.readUdp fd serviceId outcomes).Alive := by
  induction outcomes generalizing s with
  | nil => exact alive
  | cons outcome outcomes ih =>
    unfold SocketServer.readUdp
    cases outcome with
    | datagram payload udpAddr =>
      dsimp only
      split
      · exact ih (alive.post _ _ (by rintro ⟨⟩))
      · exact alive
    | eagain | eintr | error => exact alive

theorem Lingered.readBuffer {conn : Conn} (lingered : s.Lingered fd) (managed : s.conns fd = some conn) :
    (s.setConn fd (some (growBuffer conn))).Lingered fd := by
  obtain ⟨conn', wb, managed', connecting, buffer, closing, drained⟩ := lingered
  rw [managed] at managed'
  cases managed'
  refine ⟨growBuffer conn, wb, conns_setConn .., ?_, buffer, closing, drained⟩
  obtain ⟨cap, grows⟩ := growBuffer_eq conn
  rw [grows]
  exact connecting

theorem Over.readUdp (past : s.Over fd) (serviceId : UInt32) (outcomes : List RecvOutcome) :
    (s.readUdp fd serviceId outcomes).Over fd := by
  induction outcomes generalizing s with
  | nil => exact past
  | cons outcome outcomes ih =>
    unfold SocketServer.readUdp
    cases outcome with
    | datagram payload udpAddr =>
      dsimp only
      split
      · refine ih ⟨?_, past.ended⟩
        rw [msgs_post]
        exact past.once.other _ ⟨by rintro ⟨⟩, by rintro ⟨⟩, by rintro ⟨⟩⟩
      · exact past
    | eagain | eintr | error => exact past

/-! ### Operations -/

theorem Alive.sendBuffer (alive : s.Alive) (buff : List UInt8) (low : Bool)
    (writes : List WriteOutcome) : (s.sendBuffer fd buff low writes).2.Alive := by
  unfold SocketServer.sendBuffer
  split
  · exact alive
  · rename_i conn managed
    dsimp only
    split
    · exact alive
    · rcases ((s.writeBuffers fd).getD {}).send ⟨conn.sent.length, low, buff⟩ ⟨writes, conn.calls⟩
        with ⟨wb, arm, io⟩
      dsimp only
      rcases wb.warn with ⟨wb', _ | kb⟩
      · cases arm <;> exact alive.of_msgs rfl
      · have posted := fun t : SocketServer => fun same : t.msgs = s.msgs =>
          (alive.of_msgs same).post { socketMsg .warning fd with size := Int32.ofNat kb }
            conn.serviceId nofun
        cases arm <;> exact posted _ rfl

theorem Over.sendBuffer (past : s.Over fd) (buff : List UInt8) (low : Bool)
    (writes : List WriteOutcome) : (s.sendBuffer fd buff low writes).2 = s := by
  unfold SocketServer.sendBuffer
  rcases past.ended with gone | ⟨conn, wb, managed, -, buffer, closing, -⟩
  · rw [gone]
  · rw [managed, buffer]
    exact congrArg Prod.snd (if_pos closing)

theorem Over.lingerClose (past : s.Over fd) : (s.lingerClose fd).Over fd := by
  refine past.of_msgs (msgs_lingerClose s fd) ?_
  unfold SocketServer.lingerClose
  rcases past.ended with gone | lingered
  · have dropped : ∀ t : SocketServer, (t.dropConn fd).conns fd = none := by
      intro t
      unfold SocketServer.dropConn
      cases t.connHas fd Conn.isBind <;> exact congrArg Slot.conn (slot_removeConn t fd)
    refine Or.inl ?_
    split
    · exact dropped s
    · split
      · exact gone
      · dsimp only
        split
        · exact gone
        · exact dropped _
  · obtain ⟨conn, wb, managed, connecting, buffer, closing, drained⟩ := lingered
    simp only [buffer, closing, if_true]
    exact Or.inr ⟨conn, wb, managed, connecting, buffer, closing, drained⟩

theorem Over.setPaused (past : s.Over fd) (paused : Bool) : (s.setPaused fd paused).2.Over fd := by
  refine past.of_msgs (msgs_setPaused s fd paused) ?_
  unfold SocketServer.setPaused
  rcases past.ended with gone | ⟨conn, wb, managed, connecting, buffer, closing, drained⟩
  · rw [gone]
    exact Or.inl gone
  · rw [managed]
    refine Or.inr ⟨{ conn with paused }, wb, ?_, connecting, buffer, closing, drained⟩
    simp [modConn, managed, modifyEvent]

theorem Alive.onConnectFinish (alive : s.Alive) (conn : Conn) (answers : Answers) :
    (s.onConnectFinish fd conn answers).Alive := by
  unfold SocketServer.onConnectFinish
  split
  · rename_i err _
    have posted := alive.post { socketMsg .error fd with buff := err } conn.serviceId nofun
    exact posted.of_msgs rfl
  · exact Alive.post (alive.of_msgs rfl) { socketMsg .connect fd with buff := answers.peer }
      conn.serviceId nofun

/-- The write part of an event posts `CLOSE` when it empties the queues of a closing connection. -/
theorem Alive.onWriteable (alive : s.Alive) {conn : Conn} (managed : s.conns fd = some conn)
    (established : conn.connecting = false) (writes : List WriteOutcome) :
    (s.onWriteable fd writes).Alive ∨
      (s.onWriteable fd writes).Over fd ∧
        (∃ calls, (s.onWriteable fd writes).conns fd = some { conn with calls }) ∧
        ∃ wb, s.writeBuffers fd = some wb ∧ wb.isClosing = true ∧
          AcceptsAll writes (wb.objs ++ wb.low) := by
  simp only [SocketServer.onWriteable, managed, flushWriteable]
  cases buffer : s.writeBuffers fd with
  | none => exact Or.inl alive
  | some wb =>
    have accepted : (wb.flush ⟨writes, conn.calls⟩).1.hasData = false → _ :=
      ConnWriteBuffer.acceptsAll_of_flush
    have kept := wb.isClosing_flush ⟨writes, conn.calls⟩
    rcases flushes : wb.flush ⟨writes, conn.calls⟩ with ⟨wb', io⟩
    rw [flushes] at accepted kept
    simp only [flushes]
    cases data : wb'.hasData with
    | true => exact Or.inl (alive.of_msgs rfl)
    | false =>
      cases closing : wb'.isClosing with
      | false => exact Or.inl (alive.of_msgs rfl)
      | true =>
        have managed' : (((s.setBuffer fd (some wb')).setConn fd
            (some { conn with calls := io.calls })).finishWriteable fd conn true true).conns fd =
              some { conn with calls := io.calls } := by
          simp [finishWriteable, shutdownRead]
        have buffer' : (((s.setBuffer fd (some wb')).setConn fd
            (some { conn with calls := io.calls })).finishWriteable fd conn true true).writeBuffers fd =
              some wb' := Function.update_self ..
        refine Or.inr ⟨?_, ⟨_, managed'⟩, ⟨wb, rfl, kept ▸ closing, accepted data⟩⟩
        refine alive.close (m := socketMsg .close fd) ?_
          (Or.inr ⟨_, wb', managed', established, buffer', closing, data⟩)
        simp [finishWriteable]

/-- After the write part, a closed connection does not read anything. -/
theorem writePart_ends {r w : Bool} {answers : Answers} {conn : Conn} (managed : s.conns fd = some conn)
    (quiet : s.LingersQuietly (.onRW fd r w answers)) (before : s.Alive ∨ s.Over fd)
    {t : SocketServer} (part : t = if w then
      if conn.connecting then s.onConnectFinish fd conn answers else s.onWriteable fd answers.writes
      else s) :
    t.Alive ∨ t.Over fd ∧ ∀ conn', t.conns fd = some conn' → r = true → conn'.paused = false →
      answers.reads.headD .eagain = .eagain ∨ answers.reads.headD .eagain = .eintr := by
  rcases before with alive | past
  · cases w with
    | false => exact Or.inl (part ▸ alive)
    | true =>
      cases connecting : conn.connecting with
      | true =>
        rw [if_pos rfl, if_pos connecting] at part
        exact Or.inl (part ▸ alive.onConnectFinish conn answers)
      | false =>
        rw [if_pos rfl, if_neg (by simp [connecting])] at part
        subst part
        refine (alive.onWriteable managed connecting answers.writes).imp id ?_
        rintro ⟨past, ⟨calls, managed'⟩, wb, buffer, closing, accepted⟩
        refine ⟨past, fun conn' eq reads paused => ?_⟩
        rw [managed'] at eq
        cases eq
        exact (quiet conn wb managed connecting buffer closing).2 (Or.inr ⟨rfl, accepted⟩) reads paused
  · obtain ⟨conn₁, wb, managed₁, connecting, buffer, closing, drained⟩ :=
      past.ended.resolve_left (by rw [managed]; nofun)
    rw [managed] at managed₁
    cases managed₁
    obtain ⟨write, waits⟩ := quiet conn wb managed connecting buffer closing
    rw [write drained] at part
    refine Or.inr ⟨part ▸ past, fun conn' eq reads paused => ?_⟩
    rw [part, if_neg (by simp), managed] at eq
    cases eq
    exact waits (Or.inl drained) reads paused

/-- An event leaves the connection alive, or ends it and posts nothing more. -/
theorem onRW_ends {r w : Bool} {answers : Answers} {conn : Conn} (managed : s.conns fd = some conn)
    (quiet : s.LingersQuietly (.onRW fd r w answers)) (before : s.Alive ∨ s.Over fd) :
    (s.onRW fd r w answers).Alive ∨ (s.onRW fd r w answers).Over fd := by
  unfold SocketServer.onRW
  rw [managed]
  extract_lets t
  have part := writePart_ends managed quiet before (t := t) rfl
  split
  · rename_i conn' managed'
    split
    · rename_i read
      simp only [Bool.and_eq_true, Bool.not_eq_true'] at read
      split
      · exact part.imp (fun alive => alive.readUdp _ _) fun past => past.1.readUdp _ _
      · rcases part with alive | ⟨past, waits⟩
        · exact alive.readData _
        · rw [readData_waits managed' (waits conn' managed' read.1.1 read.2)]
          refine Or.inr (past.of_msgs rfl (Or.inr ?_))
          refine Lingered.readBuffer ?_ managed'
          exact past.ended.resolve_left (by rw [managed']; nofun)
    · exact part.imp id And.left
  · exact part.imp id And.left

end SocketServer

/-- In every run in which a lingering connection gets no further events once its queues are empty,
`CLOSE` is posted once and nothing after it. -/
theorem oneClose_of_lingersQuietly {fd : Int32} {s : SocketServer} {tr : List SocketOp}
    (run : ((oneConnection fd).restrict SocketServer.LingersQuietly).Run s tr) : OneClose s.msgs := by
  have ends : s.Alive ∨ s.Over fd := by
    refine run.stateInvariant (P := fun s => s.Alive ∨ s.Over fd) ?_ ?_
    · rintro s ⟨posted, -⟩
      refine Or.inl fun m mem => ?_
      rw [SocketServer.msgs, posted] at mem
      cases mem
    · rintro s op s' before ⟨⟨step, own⟩, quiet⟩
      cases step with
      | sendBuffer fd' buff low writes =>
        cases own
        rcases before with alive | past
        · exact Or.inl (alive.sendBuffer buff low writes)
        · rw [past.sendBuffer]
          exact Or.inr past
      | onRW managed type =>
        cases own
        exact SocketServer.onRW_ends managed quiet before
      | pauseRead fd' =>
        cases own
        exact before.imp (fun alive => alive.of_msgs (SocketServer.msgs_setPaused ..))
          fun past => past.setPaused true
      | resumeRead fd' =>
        cases own
        exact before.imp (fun alive => alive.of_msgs (SocketServer.msgs_setPaused ..))
          fun past => past.setPaused false
      | lingerClose fd' =>
        cases own
        exact before.imp (fun alive => alive.of_msgs (SocketServer.msgs_lingerClose ..))
          SocketServer.Over.lingerClose
      | openFd | listen | accept | connect | bind | closeConn => cases own
  exact ends.elim SocketServer.Alive.oneClose SocketServer.Over.once

/-- The peer closes a connection that lingers with data to write. -/
theorem oneClose_peer :
    let s₀ := SocketServer.initial.connect 5 7 none
    let s₁ := s₀.onRW 5 false true {}
    let s₂ := (s₁.sendBuffer 5 [1] false [.eagain]).2
    let s₃ := s₂.lingerClose 5
    let s₄ := s₃.onRW 5 true true { writes := [.eagain], reads := [.eof] }
    s₄.msgs.map SocketMsg.subtype = [.connect, .close] ∧ OneClose s₄.msgs := by
  intro s₀ s₁ s₂ s₃ s₄
  have run₀ : ((oneConnection 5).restrict SocketServer.LingersQuietly).Run s₀ [] :=
    .init ⟨rfl, rfl, (s₀.conns 5).get rfl, rfl, rfl⟩
  have step₁ : s₀.Step (.onRW 5 false true {}) s₁ :=
    .onRW (show s₀.conns 5 = some ((s₀.conns 5).get rfl) from rfl) (by decide)
  have step₂ : s₁.Step (.sendBuffer 5 [1] false [.eagain]) s₂ := .sendBuffer ..
  have step₃ : s₂.Step (.lingerClose 5) s₃ := .lingerClose ..
  have step₄ : s₃.Step (.onRW 5 true true { writes := [.eagain], reads := [.eof] }) s₄ :=
    .onRW (show s₃.conns 5 = some ((s₃.conns 5).get rfl) from rfl) (by decide)
  have quiet₁ : s₀.LingersQuietly (.onRW 5 false true {}) := by
    intro conn wb managed connecting buffer
    cases buffer
  have quiet₄ : s₃.LingersQuietly
      (.onRW 5 true true { writes := [.eagain], reads := [.eof] }) := by
    intro conn wb managed connecting buffer closing
    cases buffer
    refine ⟨nofun, ?_⟩
    rintro (drained | ⟨-, accepted⟩)
    · cases drained
    · exact accepted.elim
  have run₁ := run₀.step ⟨⟨step₁, rfl⟩, quiet₁⟩
  have run₂ := run₁.step ⟨⟨step₂, rfl⟩, trivial⟩
  have run₃ := run₂.step ⟨⟨step₃, rfl⟩, trivial⟩
  have run₄ := run₃.step ⟨⟨step₄, rfl⟩, quiet₄⟩
  exact ⟨rfl, oneClose_of_lingersQuietly run₄⟩

/-- The queues of a lingering connection are written, and then the end of the stream is read. -/
theorem not_oneClose_linger : ¬∀ fd s tr, (oneConnection fd).Run s tr → OneClose s.msgs := by
  intro claim
  let s₀ := SocketServer.initial.connect 5 7 none
  let s₁ := s₀.onRW 5 false true {}
  let s₂ := (s₁.sendBuffer 5 [1] false [.eagain]).2
  let s₃ := s₂.lingerClose 5
  let s₄ := s₃.onRW 5 false true { writes := [.wrote 1] }
  let s₅ := s₄.onRW 5 true false { reads := [.eof] }
  have run₀ : (oneConnection 5).Run s₀ [] := .init ⟨rfl, rfl, (s₀.conns 5).get rfl, rfl, rfl⟩
  have step₁ : s₀.Step (.onRW 5 false true {}) s₁ :=
    .onRW (show s₀.conns 5 = some ((s₀.conns 5).get rfl) from rfl) (by decide)
  have step₂ : s₁.Step (.sendBuffer 5 [1] false [.eagain]) s₂ := .sendBuffer ..
  have step₃ : s₂.Step (.lingerClose 5) s₃ := .lingerClose ..
  have step₄ : s₃.Step (.onRW 5 false true { writes := [.wrote 1] }) s₄ :=
    .onRW (show s₃.conns 5 = some ((s₃.conns 5).get rfl) from rfl) (by decide)
  have step₅ : s₄.Step (.onRW 5 true false { reads := [.eof] }) s₅ :=
    .onRW (show s₄.conns 5 = some ((s₄.conns 5).get rfl) from rfl) (by decide)
  have run := ((((run₀.step ⟨step₁, rfl⟩).step ⟨step₂, rfl⟩).step ⟨step₃, rfl⟩).step
    ⟨step₄, rfl⟩).step ⟨step₅, rfl⟩
  have posted : s₅.msgs = [{ SocketServer.socketMsg .connect 5 with buff := [] }] ++
      SocketServer.socketMsg .close 5 :: [SocketServer.socketMsg .close 5] := by decide +kernel
  exact (claim 5 s₅ _ run _ _ _ posted rfl _ List.mem_cons_self).2.2 rfl

end Starnet
