import Starnet.Socket.Armed

/-! The write event between `OnWriteable` on the socket thread and `SendBuffer` on the workers. A
flush decides under the lock that there is nothing left to write, and turns `EPOLLOUT` off after it
has released the lock. -/

namespace Starnet

namespace SocketServer

/-- `SendBuffer` from the lock to the write event: whether it is to be armed, and the engine. A
connection that is closing takes no more data. -/
def push (s : SocketServer) (fd : Int32) (buff : List UInt8) (low : Bool)
    (writes : List WriteOutcome) : Option (Bool × SocketServer) :=
  match s.conns fd with
  | none => none
  | some conn =>
    let wb := (s.writeBuffers fd).getD {}
    if wb.isClosing then none
    else
      let msg : Submission := ⟨conn.sent.length, low, buff⟩
      let (wb, arm, io) := wb.send msg ⟨writes, conn.calls⟩
      some (arm, (s.setBuffer fd (some wb)).setConn fd
        (some { conn with sent := conn.sent ++ [msg], calls := io.calls }))

/-- The warning of `SendBuffer`, which ends with the lock. -/
def warn (s : SocketServer) (fd : Int32) : Option Nat × SocketServer :=
  let (wb, warnKb) := ((s.writeBuffers fd).getD {}).warn
  (warnKb, s.setBuffer fd (some wb))

end SocketServer

namespace WriteEvent

open SocketServer (socketMsg)

/-- Where a worker is in `SendBuffer`: after `GetConn`, under the lock before and after
`ModifyEvent(fd, true)`, and after the lock with a warning to post. -/
inductive Sender
  | idle
  | found (fd : Int32) (serviceId : UInt32) (buff : List UInt8) (low : Bool)
  | pushed (fd : Int32) (serviceId : UInt32) (arm : Bool)
  | armed (fd : Int32) (serviceId : UInt32)
  | warning (fd : Int32) (serviceId : UInt32) (kb : Nat)
  deriving DecidableEq, Repr

/-- What `OnWriteable` has found under the lock. -/
structure Flushed where
  fd : Int32
  conn : Conn
  emptied : Bool
  needNotify : Bool
  deriving DecidableEq, Repr

/-- The engine, the workers in `SendBuffer`, the socket thread in `OnWriteable` after the lock, and
the worker that holds the lock. -/
structure Engine (ι : Type) where
  server : SocketServer
  senders : ι → Sender
  flushed : Option Flushed
  lock : Option ι

/-- The steps of the workers and those of the socket thread. -/
inductive Move (ι : Type)
  | send (t : ι) (fd : Int32) (buff : List UInt8) (low : Bool)
  | push (t : ι) (writes : List WriteOutcome)
  | arm (t : ι)
  | unlock (t : ι)
  | warn (t : ι)
  | flush (fd : Int32) (writes : List WriteOutcome)
  | finish

namespace Engine

variable {ι : Type} [DecidableEq ι]

def setSender (e : Engine ι) (t : ι) (sender : Sender) : Engine ι :=
  { e with senders := Function.update e.senders t sender }

/-- The engine after a move, if it can be made. -/
def next (e : Engine ι) : Move ι → Option (Engine ι)
  | .send t fd buff low =>
    match e.senders t, e.server.conns fd with
    | .idle, some conn => some (e.setSender t (.found fd conn.serviceId buff low))
    | _, _ => none
  | .push t writes =>
    match e.senders t, e.lock with
    | .found fd serviceId buff low, none =>
      match e.server.push fd buff low writes with
      | none => some (e.setSender t .idle)
      | some (arm, server) =>
        some { e.setSender t (.pushed fd serviceId arm) with server, lock := some t }
    | _, _ => none
  | .arm t =>
    match e.senders t with
    | .pushed fd serviceId arm =>
      some { e.setSender t (.armed fd serviceId) with
        server := if arm then e.server.modifyEvent fd true else e.server }
    | _ => none
  | .unlock t =>
    match e.senders t with
    | .armed fd serviceId =>
      let (warnKb, server) := e.server.warn fd
      some { e.setSender t (warnKb.elim .idle (.warning fd serviceId)) with server, lock := none }
    | _ => none
  | .warn t =>
    match e.senders t with
    | .warning fd serviceId kb =>
      some { e.setSender t .idle with
        server := e.server.post { socketMsg .warning fd with size := Int32.ofNat kb } serviceId }
    | _ => none
  | .flush fd writes =>
    match e.flushed, e.lock, e.server.conns fd with
    | none, none, some conn =>
      if conn.connecting then none
      else
        let (emptied, needNotify, server) := e.server.flushWriteable fd conn writes
        some { e with server, flushed := some ⟨fd, conn, emptied, needNotify⟩ }
    | _, _, _ => none
  | .finish => e.flushed.map fun f =>
    { e with
      server := e.server.finishWriteable f.fd f.conn f.emptied f.needNotify
      flushed := none }

/-- No call is in progress. -/
def Quiet (e : Engine ι) : Prop := (∀ t, e.senders t = .idle) ∧ e.flushed = none

/-- A worker is about to arm the write event. -/
def Arming (e : Engine ι) (fd : Int32) : Prop := ∃ t serviceId, e.senders t = .pushed fd serviceId true

/-- `OnWriteable` turns the event off only while nothing is queued, or before a worker that has
queued data turns it on. -/
def DisarmsDrained (e : Engine ι) : Move ι → Prop
  | .finish => ∀ f, e.flushed = some f → f.emptied = true → f.needNotify = false →
      (e.server.writeBuffers f.fd).any ConnWriteBuffer.hasData = false ∨ e.Arming f.fd
  | _ => True

end Engine

/-- The engine from any state between two calls, with the workers `ι`. -/
def engine (ι : Type) [DecidableEq ι] : Transition.System (Engine ι) (Move ι) where
  init e := e.Quiet ∧ e.lock = none ∧ e.server.WriteArmed ∧
    ∀ fd, (e.server.conns fd).isSome = true → Slot.Registered (e.server.sockets fd)
  step e move e' := e.next move = some e'

end WriteEvent

/-! ### The slots -/

namespace Slot

/-- An established TCP connection. -/
def Established (a : Slot) : Prop :=
  ∃ conn, a.conn = some conn ∧ conn.type = .client ∧ conn.connecting = false

/-- Work that neither ends nor establishes a connection, and leaves it registered. -/
structure Lasts (a b : Slot) : Prop where
  conn : b.conn.map (fun conn => (conn.type, conn.connecting)) =
    a.conn.map fun conn => (conn.type, conn.connecting)
  registered : Registered a.socket → Registered b.socket

variable {a b : Slot}

theorem Lasts.refl (a : Slot) : a.Lasts a := ⟨rfl, id⟩

theorem Lasts.established (h : a.Lasts b) (established : b.Established) : a.Established := by
  obtain ⟨conn, managed, type, connecting⟩ := established
  have same := h.conn
  rw [managed, Option.map_some] at same
  obtain ⟨conn', managed', eq⟩ := Option.map_eq_some_iff.mp same.symm
  rw [type, connecting] at eq
  exact ⟨conn', managed', congrArg Prod.fst eq, congrArg Prod.snd eq⟩

theorem Lasts.isSome (h : a.Lasts b) : b.conn.isSome = a.conn.isSome := by
  have same := congrArg Option.isSome h.conn
  rwa [Option.isSome_map, Option.isSome_map] at same

theorem OutArmed.map {socket : Option Socket} (h : OutArmed socket) {f : Socket → Socket}
    (keeps : ∀ k, (f k).events = k.events) : OutArmed (socket.map f) := by
  obtain ⟨k, e, rfl, events, out⟩ := h
  exact ⟨f k, e, rfl, (keeps k).trans events, out⟩

end Slot

namespace SocketServer

variable {s s' : SocketServer} {fd fd' : Int32}

theorem any_hasData (s : SocketServer) (fd : Int32) :
    (s.writeBuffers fd).any ConnWriteBuffer.hasData = (s.slot fd).wb.hasData := by
  rw [Slot.wb, slot_buffer]
  cases s.writeBuffers fd <;> rfl

theorem push_slot {buff : List UInt8} {low arm : Bool} {writes : List WriteOutcome}
    (pushes : s.push fd buff low writes = some (arm, s')) :
    (s.slot fd).Lasts (s'.slot fd) ∧ (arm = false → (s.slot fd).Armed → (s'.slot fd).Armed) ∧
      ∀ fd', fd' ≠ fd → s'.slot fd' = s.slot fd' := by
  unfold push at pushes
  split at pushes
  · cases pushes
  rename_i conn managed
  dsimp only at pushes
  split at pushes
  · cases pushes
  rcases sends : ((s.writeBuffers fd).getD {}).send ⟨conn.sent.length, low, buff⟩
    ⟨writes, conn.calls⟩ with ⟨wb, arm', io⟩
  rw [sends] at pushes
  cases pushes
  refine ⟨⟨by simp [managed], by simp⟩, fun quiet armed data => ?_, fun fd' other => ?_⟩
  · subst quiet
    have before : (s.slot fd).wb.hasData = true := by
      by_contra empty
      have left := ConnWriteBuffer.hasData_send sends (Bool.not_eq_true _ ▸ empty)
      simp [Slot.wb, left] at data
    simpa using armed before
  · rw [setConn_other other, setBuffer_other other]

theorem warn_slot (s : SocketServer) (fd : Int32) : (s.slot fd).Lasts ((s.warn fd).2.slot fd) ∧
    ((s.slot fd).Armed → ((s.warn fd).2.slot fd).Armed) ∧
    ∀ fd', fd' ≠ fd → (s.warn fd).2.slot fd' = s.slot fd' := by
  refine ⟨⟨by simp [warn], by simp [warn]⟩, fun armed data => ?_, fun fd' other =>
    setBuffer_other other _⟩
  have before : (s.slot fd).wb.hasData = true := by simpa [warn, Slot.wb] using data
  simpa [warn] using armed before

theorem flushWriteable_slot {conn : Conn} (managed : s.conns fd = some conn)
    (writes : List WriteOutcome) :
    (s.slot fd).Lasts ((s.flushWriteable fd conn writes).2.2.slot fd) ∧
      ((s.slot fd).Armed → ((s.flushWriteable fd conn writes).2.2.slot fd).Armed) := by
  unfold flushWriteable
  split
  · exact ⟨.refl _, id⟩
  · rename_i wb buffer
    rcases flushes : wb.flush ⟨writes, conn.calls⟩ with ⟨wb', io⟩
    refine ⟨⟨by simp [managed], by simp⟩, fun armed data => ?_⟩
    have before : (s.slot fd).wb.hasData = true := by
      by_contra empty
      rw [Slot.wb, slot_buffer, buffer, Option.getD_some] at empty
      have left := ConnWriteBuffer.hasData_flush flushes (Bool.not_eq_true _ ▸ empty)
      simp [Slot.wb, left] at data
    simpa using armed before

/-- The end of `OnWriteable` leaves the event alone or turns it off. -/
theorem finishWriteable_slot (s : SocketServer) (fd : Int32) (conn : Conn)
    (emptied needNotify : Bool) :
    (s.slot fd).Lasts ((s.finishWriteable fd conn emptied needNotify).slot fd) ∧
      ((s.slot fd).Armed → (emptied = true → needNotify = false → (s.slot fd).wb.hasData = false) →
        ((s.finishWriteable fd conn emptied needNotify).slot fd).Armed) := by
  unfold finishWriteable
  split
  · refine ⟨⟨by simp [shutdownRead], fun registered => ?_⟩, fun armed _ data => ?_⟩
    · simpa [shutdownRead] using registered.map (f := fun k => { k with readShut := true })
        fun _ => rfl
    · have before : (s.slot fd).wb.hasData = true := by simpa [shutdownRead, Slot.wb] using data
      simpa [shutdownRead] using (armed before).map (f := fun k => { k with readShut := true })
        fun _ => rfl
  · rename_i silent
    split
    · rename_i emptied
      refine ⟨⟨by simp, fun registered => ?_⟩, fun _ drained data => ?_⟩
      · rw [slot_modifyEvent]
        exact registered.rearm _ _
      · have none := drained emptied (Bool.not_eq_true _ ▸ silent)
        rw [Slot.wb, slot_modifyEvent] at data
        rw [Slot.wb] at none
        rw [none] at data
        cases data
    · exact ⟨.refl _, fun armed _ => armed⟩

end SocketServer

namespace WriteEvent

open SocketServer (modifyEvent_other finishWriteable_other flushWriteable_other)

namespace Engine

variable {ι : Type} {e e' : Engine ι} {fd : Int32}

/-- An established connection with data to write is armed, or a worker is about to arm it. -/
structure Good (e : Engine ι) : Prop where
  registered : ∀ fd, (e.server.conns fd).isSome = true → Slot.Registered (e.server.sockets fd)
  covered : ∀ fd, (e.server.slot fd).Established → (e.server.slot fd).Armed ∨ e.Arming fd

/-- A step at the descriptor `fd`. -/
theorem Good.change (h : e.Good) (fd : Int32)
    (others : ∀ fd', fd' ≠ fd → e'.server.slot fd' = e.server.slot fd')
    (lasts : (e.server.slot fd).Lasts (e'.server.slot fd))
    (here : (e.server.slot fd).Established → (e.server.slot fd).Armed ∨ e.Arming fd →
      (e'.server.slot fd).Armed ∨ e'.Arming fd)
    (arming : ∀ fd', fd' ≠ fd → e.Arming fd' → e'.Arming fd') : e'.Good := by
  constructor
  · intro fd' managed
    by_cases same : fd' = fd
    · subst same
      exact lasts.registered (h.registered fd' (lasts.isSome ▸ managed))
    · have slot := others fd' same
      rw [show e'.server.conns fd' = e.server.conns fd' from congrArg Slot.conn slot] at managed
      rw [show e'.server.sockets fd' = e.server.sockets fd' from congrArg Slot.socket slot]
      exact h.registered fd' managed
  · intro fd' established
    by_cases same : fd' = fd
    · subst same
      have before := lasts.established established
      exact here before (h.covered fd' before)
    · rw [others fd' same] at established ⊢
      exact (h.covered fd' established).imp_right (arming fd' same)

/-- A step that changes neither the tables nor a worker about to arm the event. -/
theorem Good.still (h : e.Good) (slots : ∀ fd, e'.server.slot fd = e.server.slot fd)
    (arming : ∀ fd, e.Arming fd → e'.Arming fd) : e'.Good :=
  h.change 0 (fun fd _ => slots fd) (slots 0 ▸ .refl _)
    (fun _ covered => (slots 0 ▸ covered).imp_right (arming 0)) fun fd _ => arming fd

variable [DecidableEq ι] {t : ι}

theorem arming_setSender {sender : Sender} (other : ∀ serviceId, e.senders t ≠ .pushed fd serviceId true)
    (arming : e.Arming fd) : (e.setSender t sender).Arming fd := by
  obtain ⟨t', serviceId, pushed⟩ := arming
  refine ⟨t', serviceId, ?_⟩
  have ne : t' ≠ t := by
    rintro rfl
    exact other serviceId pushed
  exact (Function.update_of_ne ne _ _).trans pushed

theorem Good.next (h : e.Good) {move : Move ι} (moves : e.next move = some e')
    (drained : e.DisarmsDrained move) : e'.Good := by
  cases move with
  | send t fd buff low =>
    dsimp only [Engine.next] at moves
    split at moves
    · rename_i idle managed
      cases moves
      exact h.still (fun _ => rfl) fun _ => arming_setSender (by simp [idle])
    · cases moves
  | push t writes =>
    dsimp only [Engine.next] at moves
    split at moves
    · rename_i fd serviceId buff low found free
      split at moves
      · cases moves
        exact h.still (fun _ => rfl) fun _ => arming_setSender (by simp [found])
      · rename_i arm server pushes
        cases moves
        obtain ⟨lasts, quiet, others⟩ := SocketServer.push_slot pushes
        have kept : ∀ fd', e.Arming fd' →
            (e.setSender t (.pushed fd serviceId arm)).Arming fd' :=
          fun _ => arming_setSender (by simp [found])
        refine h.change fd others lasts (fun _ covered => ?_) fun fd' _ => kept fd'
        cases arm with
        | true => exact Or.inr ⟨t, serviceId, Function.update_self ..⟩
        | false => exact covered.imp (quiet rfl) (kept fd)
    · cases moves
  | arm t =>
    dsimp only [Engine.next] at moves
    split at moves
    · rename_i fd serviceId arm pushed
      cases moves
      cases arm with
      | true =>
        have others : ∀ fd', fd' ≠ fd → (e.server.modifyEvent fd true).slot fd' =
            e.server.slot fd' := fun _ other => modifyEvent_other other true
        have lasts : (e.server.slot fd).Lasts ((e.server.modifyEvent fd true).slot fd) :=
          ⟨by simp, fun registered => by rw [SocketServer.slot_modifyEvent]; exact registered.rearm _ _⟩
        refine h.change fd others lasts (fun established _ => Or.inl fun _ => ?_) fun fd' other =>
          arming_setSender (by simp [pushed, other.symm])
        obtain ⟨conn, managed, -⟩ := established
        have armed : Slot.OutArmed ((e.server.modifyEvent fd true).slot fd).socket := by
          rw [SocketServer.slot_modifyEvent]
          exact (h.registered fd (Option.isSome_of_eq_some managed)).outArmed _
        exact armed
      | false => exact h.still (fun _ => rfl) fun _ => arming_setSender (by simp [pushed])
    · cases moves
  | unlock t =>
    dsimp only [Engine.next] at moves
    split at moves
    · rename_i fd serviceId armed
      cases moves
      obtain ⟨lasts, kept, others⟩ := e.server.warn_slot fd
      exact h.change fd others lasts
        (fun _ covered => covered.imp kept (arming_setSender (by simp [armed])))
        fun fd' _ => arming_setSender (by simp [armed])
    · cases moves
  | warn t =>
    dsimp only [Engine.next] at moves
    split at moves
    · rename_i fd serviceId kb warning
      cases moves
      exact h.still (fun _ => rfl) fun _ => arming_setSender (by simp [warning])
    · cases moves
  | flush fd writes =>
    dsimp only [Engine.next] at moves
    split at moves
    · rename_i conn _ _ managed
      split at moves
      · cases moves
      · cases moves
        obtain ⟨lasts, kept⟩ := SocketServer.flushWriteable_slot managed writes
        exact h.change fd (fun _ other => flushWriteable_other other conn writes) lasts
          (fun _ covered => covered.imp_left kept) fun _ _ => id
    · cases moves
  | finish =>
    obtain ⟨f, flushed, rfl⟩ := Option.map_eq_some_iff.mp moves
    obtain ⟨lasts, kept⟩ := e.server.finishWriteable_slot f.fd f.conn f.emptied f.needNotify
    refine h.change f.fd (fun _ other => finishWriteable_other other f.conn _ _) lasts
      (fun _ covered => ?_) fun _ _ => id
    rcases covered with armed | arming
    · by_cases disarms : f.emptied = true ∧ f.needNotify = false
      · refine (drained f flushed disarms.1 disarms.2).imp_left fun empty => ?_
        exact kept armed fun _ _ => (SocketServer.any_hasData _ _).symm.trans empty
      · exact Or.inl (kept armed fun emptied silent => absurd ⟨emptied, silent⟩ disarms)
    · exact Or.inr arming

end Engine

/-- Between the calls an established connection with data to write has its event armed, in every run
in which `OnWriteable` turns the event off only while nothing is queued. -/
theorem writeArmed_of_disarmsDrained {ι : Type} [DecidableEq ι] {e : Engine ι} {tr : List (Move ι)}
    (run : ((engine ι).restrict Engine.DisarmsDrained).Run e tr) (quiet : e.Quiet) :
    e.server.WriteArmed := by
  have good : e.Good := by
    refine run.stateInvariant (P := Engine.Good) ?_ ?_
    · rintro e ⟨-, -, armed, registered⟩
      refine ⟨registered, fun fd ⟨conn, managed, type, connecting⟩ => Or.inl fun data => ?_⟩
      have queued : ((e.server.writeBuffers fd).any ConnWriteBuffer.hasData) = true :=
        (SocketServer.any_hasData _ _).trans data
      obtain ⟨wb, buffer, data⟩ := (Option.any_eq_true _ _).mp queued
      exact armed fd conn wb managed type connecting buffer data
    · rintro e move e' before ⟨moves, drained⟩
      exact before.next moves drained
  intro fd conn wb managed type connecting buffer data
  rcases good.covered fd ⟨conn, managed, type, connecting⟩ with armed | ⟨t, serviceId, pushed⟩
  · refine armed ?_
    rw [Slot.wb, SocketServer.slot_buffer, buffer]
    exact data
  · cases (quiet.1 t).symm.trans pushed

/-- A state of the engine with atomic calls in which the data to write is armed can be the start. -/
theorem run_of_server {ι : Type} [DecidableEq ι] {s : SocketServer} {tr : List SocketOp}
    (run : socketServer.Run s tr) (armed : s.WriteArmed) :
    (engine ι).Run ⟨s, fun _ => .idle, none, none⟩ [] :=
  .init ⟨⟨fun _ => rfl, rfl⟩, rfl, armed, fun fd => (SocketServer.managed_of_run run fd).registered⟩

/-- `SendBuffer` without a step of another thread in between is the atomic call. -/
theorem sendBuffer_alone (s : SocketServer) (fd : Int32) (buff : List UInt8) (low : Bool)
    (writes : List WriteOutcome) {conn : Conn} (managed : s.conns fd = some conn) :
    (s.sendBuffer fd buff low writes).2 =
      match s.push fd buff low writes with
      | none => s
      | some (arm, pushed) =>
        match (if arm then pushed.modifyEvent fd true else pushed).warn fd with
        | (none, s) => s
        | (some kb, s) =>
          s.post { SocketServer.socketMsg .warning fd with size := Int32.ofNat kb } conn.serviceId := by
  unfold SocketServer.sendBuffer SocketServer.push
  rw [managed]
  dsimp only
  split
  · rfl
  rcases ((s.writeBuffers fd).getD {}).send ⟨conn.sent.length, low, buff⟩ ⟨writes, conn.calls⟩ with
    ⟨wb, arm, io⟩
  rcases warned : wb.warn with ⟨wb', warnKb⟩
  have swap (s : SocketServer) (out : Bool) (conn : Conn) :
      ((if out then ((s.setBuffer fd (some wb)).setConn fd (some conn)).modifyEvent fd true
        else (s.setBuffer fd (some wb)).setConn fd (some conn)).warn fd) =
      (warnKb, if out then ((s.setBuffer fd (some wb')).setConn fd (some conn)).modifyEvent fd true
        else (s.setBuffer fd (some wb')).setConn fd (some conn)) := by
    cases out <;> simp [SocketServer.warn, SocketServer.modifyEvent, SocketServer.setSocket,
      SocketServer.setConn, SocketServer.setBuffer, SocketServer.connHas, warned]
  dsimp only
  rw [swap]
  cases warnKb <;> rfl

/-- A connection on descriptor 5 with nothing to write. -/
def connected : Engine Unit :=
  ⟨(SocketServer.initial.connect 5 7 none).onRW 5 false true {}, fun _ => .idle, none, none⟩

theorem connected_run : (engine Unit).Run connected [] := by
  have run₀ : (socketServer.restrict SocketServer.CompletesDrained).Run .initial [] := .init rfl
  let s := SocketServer.initial.connect 5 7 none
  have step₁ : SocketServer.Step .initial (.connect 5 7 none) s := .connect rfl
  have step₂ : s.Step (.onRW 5 false true {}) connected.server :=
    .onRW (show s.conns 5 = some ((s.conns 5).get rfl) from rfl) (by decide)
  have run := (run₀.step ⟨step₁, fun completes => completes.elim⟩).step ⟨step₂, fun _ => rfl⟩
  exact run_of_server run.of_restrict (writeArmed_of_completesDrained run)

/-- A message that is written in part, while a flush before it ends. -/
theorem writeArmed_push_during_flush : ∃ e tr,
    ((engine Unit).restrict Engine.DisarmsDrained).Run e tr ∧ e.Quiet ∧
      (e.server.writeBuffers 5).any ConnWriteBuffer.hasData = true ∧ e.server.WriteArmed := by
  have run₀ : ((engine Unit).restrict Engine.DisarmsDrained).Run connected [] :=
    .init connected_run.first
  let before : List (Move Unit) := [.send () 5 [1, 2] false, .push () [.wrote 1], .arm (),
    .unlock (), .flush 5 [.wrote 1], .send () 5 [3, 4] false, .push () [.wrote 1]]
  let after : List (Move Unit) := [.arm (), .unlock ()]
  let e₁ := (before.foldlM Engine.next connected).get rfl
  let e₂ := (e₁.next .finish).get rfl
  let e₃ := (after.foldlM Engine.next e₂).get rfl
  have sound : ∀ move, (∀ e : Engine Unit, e.DisarmsDrained move) → ∀ e e', e.next move = some e' →
      ((engine Unit).restrict Engine.DisarmsDrained).step e move e' :=
    fun _ meets e _ moves => ⟨moves, meets e⟩
  have harmless : ∀ move ∈ before ++ after, ∀ e : Engine Unit, e.DisarmsDrained move := by
    simp [before, after, Engine.DisarmsDrained]
  have finish : (engine Unit).step e₁ .finish e₂ := (Option.some_get _).symm
  have run₁ := run₀.foldlM_mem
    (fun move mem => sound move (harmless move (List.mem_append_left _ mem)))
    (show before.foldlM Engine.next connected = some e₁ from (Option.some_get _).symm)
  have arming : e₁.Arming 5 := ⟨(), 7, rfl⟩
  have run₂ := run₁.step ⟨finish, by
    rintro f flushed - -
    have here : e₁.flushed.map (·.fd) = some 5 := rfl
    rw [flushed, Option.map_some, Option.some.injEq] at here
    rw [here]
    exact Or.inr arming⟩
  have run := run₂.foldlM_mem
    (fun move mem => sound move (harmless move (List.mem_append_right _ mem)))
    (show after.foldlM Engine.next e₂ = some e₃ from (Option.some_get _).symm)
  have quiet : e₃.Quiet := ⟨fun _ => rfl, rfl⟩
  exact ⟨e₃, _, run, quiet, rfl, writeArmed_of_disarmsDrained run quiet⟩

/-- A message that is written in part after a flush has emptied the queues and before it turns the
event off. -/
theorem not_writeArmed_push_after_flush :
    ¬∀ (e : Engine Unit) (tr : List (Move Unit)), (engine Unit).Run e tr → e.Quiet →
      e.server.WriteArmed := by
  intro claim
  let moves : List (Move Unit) := [.send () 5 [1, 2] false, .push () [.wrote 1], .arm (), .unlock (),
    .flush 5 [.wrote 1], .send () 5 [3, 4] false, .push () [.wrote 1], .arm (), .unlock (), .finish]
  have steps : moves.foldlM Engine.next connected =
      some ((moves.foldlM Engine.next connected).get rfl) := (Option.some_get _).symm
  have run := connected_run.foldlM (fun _ _ _ moves => moves) steps
  have quiet : ((moves.foldlM Engine.next connected).get rfl).Quiet := ⟨fun _ => rfl, rfl⟩
  let s := ((moves.foldlM Engine.next connected).get rfl).server
  obtain ⟨k, e, socket, events, out⟩ := claim _ _ run quiet 5 ((s.conns 5).get rfl)
    ((s.writeBuffers 5).get rfl) rfl rfl rfl rfl rfl
  have disarmed : s.sockets 5 = some { events := some ⟨true, true, false⟩ } := rfl
  cases disarmed.symm.trans socket
  cases events
  cases out

end WriteEvent

end Starnet
