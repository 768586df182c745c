import Starnet.Socket.Armed
import Starnet.Socket.Messages

/-! Connection attempts. A connection that is being made waits for `EPOLLOUT`, also with nothing to
write; `PauseRead` and `ResumeRead` register for it only when a queue holds data. -/

namespace Starnet

/-- Every connection that is being made is registered for `EPOLLOUT`. -/
def SocketServer.ConnectingArmed (s : SocketServer) : Prop :=
  ∀ fd conn, s.conns fd = some conn → conn.connecting = true → Slot.OutArmed (s.sockets fd)

/-- The engine, with the calls of `Connect` numbered: `attempt` is the last one that gave a
descriptor, `answers` are the `CONNECT` and `ERROR` messages with the attempt each is about, and
`handled` are the attempts that have been completed by their event, or at once. -/
structure Attempts where
  server : SocketServer
  attempt : Int32 → Nat
  count : Nat
  answers : List (Nat × SocketMsg)
  handled : List Nat

namespace Attempts

/-- The attempt that an operation completes. -/
def completes (s : Attempts) : SocketOp → List Nat
  | .onRW fd _ w _ => if w && s.server.connHas fd Conn.connecting then [s.attempt fd] else []
  | .connect _ _ (some _) => [s.count]
  | _ => []

/-- The attempts by descriptor, and their number, after an operation. -/
def numbers (s : Attempts) : SocketOp → (Int32 → Nat) × Nat
  | .connect fd _ _ => (Function.update s.attempt fd s.count, s.count + 1)
  | _ => (s.attempt, s.count)

/-- The engine has done an operation that leaves it as `server`. -/
def become (s : Attempts) (op : SocketOp) (server : SocketServer) : Attempts where
  server := server
  attempt := (s.numbers op).1
  count := (s.numbers op).2
  answers := s.answers ++
    ((server.posted.drop s.server.posted.length).filter (·.1.subtype.answers)).map fun m =>
      ((s.numbers op).1 m.1.fd, m.1)
  handled := s.handled ++ s.completes op

/-- Each completed attempt has one answer. -/
def Answered (s : Attempts) : Prop :=
  ∀ a ∈ s.handled, (s.answers.map Prod.fst).count a = 1

/-- Reading from a connection that is being made is paused or resumed only while data is queued. -/
def PausesQueued (s : Attempts) : SocketOp → Prop
  | .pauseRead fd | .resumeRead fd => s.server.connHas fd Conn.connecting = true →
      (s.server.writeBuffers fd).any ConnWriteBuffer.hasData = true
  | _ => True

end Attempts

/-- The engine with its calls and events in any order. -/
def attempts : Transition.System Attempts SocketOp where
  init s := s = ⟨.initial, fun _ => 0, 0, [], []⟩
  step s op s' := ∃ server, s.server.Step op server ∧ s' = s.become op server

/-! ### The write event -/

namespace Slot

/-- The write event of an attempt. -/
def Waits (a : Slot) : Prop :=
  ∀ conn, a.conn = some conn → conn.connecting = true → OutArmed a.socket

variable {a b : Slot}

theorem Waits.none (gone : b.conn = none) : b.Waits := by
  intro conn managed
  cases gone.symm.trans managed

theorem Waits.established {conn : Conn} (managed : b.conn = some conn)
    (connecting : conn.connecting = false) : b.Waits := by
  intro conn' managed' connecting'
  cases managed.symm.trans managed'
  cases connecting.symm.trans connecting'

/-- Work that does not begin an attempt and leaves the write event on. -/
theorem Waits.keep (h : a.Waits) (conns : ∀ conn', b.conn = some conn' → ∃ conn, a.conn = some conn ∧
      conn'.connecting = conn.connecting) (armed : OutArmed a.socket → OutArmed b.socket) :
    b.Waits := by
  intro conn' managed' connecting'
  obtain ⟨conn, managed, same⟩ := conns conn' managed'
  exact armed (h conn managed (same ▸ connecting'))

theorem OutArmed.registered {socket : Option Socket} (h : OutArmed socket) : Registered socket := by
  obtain ⟨k, e, rfl, events, -⟩ := h
  exact ⟨k, rfl, by rw [events]; rfl⟩

end Slot

namespace SocketServer

variable {s s' : SocketServer} {fd : Int32}

theorem sendBuffer_outArmed (buff : List UInt8) (low : Bool) (writes : List WriteOutcome)
    (armed : Slot.OutArmed (s.sockets fd)) :
    Slot.OutArmed ((s.sendBuffer fd buff low writes).2.sockets fd) := by
  unfold sendBuffer
  split
  · exact armed
  · rename_i conn managed
    dsimp only
    split
    · exact armed
    · generalize ((s.writeBuffers fd).getD {}).send ⟨conn.sent.length, low, buff⟩
        ⟨writes, conn.calls⟩ = sent
      have rearmed : ∀ t : SocketServer, t.sockets = s.sockets →
          Slot.OutArmed ((t.modifyEvent fd true).sockets fd) := by
        intro t same
        have slot := congrArg Slot.socket (slot_modifyEvent t fd true)
        rw [slot_socket] at slot
        rw [slot, same]
        exact armed.registered.outArmed _
      cases sent.2.1 <;> cases sent.1.warn.2
      · exact armed
      · exact armed
      · exact rearmed _ rfl
      · exact rearmed _ rfl

/-- A pause of a connecting connection leaves its write event on, as data is queued. -/
theorem setPaused_waits {fd : Int32} (paused : Bool) (managed : (s.slot fd).Managed)
    (queued : s.connHas fd Conn.connecting = true →
      (s.writeBuffers fd).any ConnWriteBuffer.hasData = true) :
    ((s.setPaused fd paused).2.slot fd).Waits := by
  intro conn' managed' connecting'
  obtain ⟨conn, before, -, same⟩ := (setPaused_tells s _ paused 0).conns conn' managed'
  have data := queued ((connHas_eq before).trans (same ▸ connecting'))
  have slot := Slot.Managed.registered_of managed before
  unfold setPaused
  rw [before]
  dsimp only
  rw [slot_modifyEvent]
  change Slot.OutArmed ((s.sockets _).map (Slot.rearm _ ((s.writeBuffers _).any _)))
  rw [data]
  exact slot.outArmed _

/-- A write event ends the attempt to connect, and other events change nothing of it. -/
theorem onRW_waits {fd : Int32} {conn : Conn} (before : s.conns fd = some conn) (r w : Bool)
    (answers : Answers) (waits : (s.slot fd).Waits) : ((s.onRW fd r w answers).slot fd).Waits := by
  cases connecting : conn.connecting with
  | true =>
    cases w with
    | true =>
      obtain ⟨-, -, -, -, -, -, -, done⟩ := onRW_answers r answers before connecting
      intro conn' managed' connecting'
      cases (done conn' managed').2.symm.trans connecting'
    | false =>
      have ignored : s.onRW fd r false answers = s := by simp [onRW, before, connecting]
      rw [ignored]
      exact waits
  | false =>
    intro conn' managed' connecting'
    obtain ⟨conn₀, before', -, same⟩ :=
      (onRW_tells before (by simp [connecting])).conns conn' managed'
    cases before.symm.trans before'
    cases (same.trans connecting).symm.trans connecting'

theorem lingerClose_waits {fd : Int32} (waits : (s.slot fd).Waits) :
    ((s.lingerClose fd).slot fd).Waits := by
  unfold lingerClose
  split
  · exact .none (dropConn_clears s fd).1
  split
  · exact waits
  dsimp only
  split
  · exact waits.keep (fun conn' managed' => ⟨conn', managed', rfl⟩) id
  · exact .none (dropConn_clears _ fd).1

/-- A connection waits for its write event after an operation. -/
theorem step_waits {op : SocketOp} (step : s.Step op s') (managed : (s.slot (opFd op)).Managed)
    (waits : (s.slot (opFd op)).Waits)
    (queued : ∀ fd, op = .pauseRead fd ∨ op = .resumeRead fd → s.connHas fd Conn.connecting = true →
      (s.writeBuffers fd).any ConnWriteBuffer.hasData = true) :
    (s'.slot (opFd op)).Waits := by
  have free : s.sockets (opFd op) = none → s.conns (opFd op) = none := by
    intro closed
    by_contra conn
    obtain ⟨k, socket, -⟩ := managed.registered (Option.isSome_iff_ne_none.mpr conn)
    cases closed.symm.trans socket
  cases step with
  | @openFd fd closed => exact .none (b := (s.setSocket fd (some {})).slot fd) (free closed)
  | @listen fd serviceId closed =>
    have unmanaged : s.conns fd = none := free closed
    let conn : Conn := { type := .listen, serviceId }
    refine Slot.Waits.established (show _ = some conn from ?_) rfl
    simp [conn, opFd, SocketServer.listen, addConn, unmanaged, addEvent, epollAdd]
  | @accept listenFd fd conn listener type closed =>
    have unmanaged : s.conns fd = none := free closed
    let conn' : Conn := { type := .client, serviceId := conn.serviceId }
    refine Slot.Waits.established (show _ = some conn' from ?_) rfl
    simp [conn', opFd, onAccept, addConn, unmanaged, epollAdd]
  | @connect fd serviceId ip closed =>
    have unmanaged : s.conns fd = none := free closed
    cases ip with
    | some ip =>
      let conn : Conn := { type := .client, serviceId }
      refine Slot.Waits.established (show _ = some conn from ?_) rfl
      simp [conn, opFd, connect, addConn, unmanaged, modConn, addEvent, epollAdd]
    | none =>
      intro conn' _ _
      refine ⟨{ events := some ⟨true, true, true⟩ }, ⟨true, true, true⟩, ?_, rfl, rfl⟩
      simp [opFd, connect, addConn, unmanaged, modConn, addEvent, epollAdd, Slot.rearm]
  | bind fd serviceId datagram =>
    change ((s.bind fd serviceId datagram).2.slot fd).Waits
    unfold bind
    split
    · exact waits
    split
    · exact waits
    · rename_i unmanaged
      replace unmanaged : s.conns fd = none := by simpa using unmanaged
      let conn : Conn :=
        { type := if datagram then .udp else .client, serviceId, isBind := true }
      refine Slot.Waits.established (show _ = some conn from ?_) rfl
      simp [conn, addConn, unmanaged, modConn, addEvent, epollAdd]
  | sendBuffer fd buff low writes =>
    refine waits.keep (fun conn' managed' => ?_) (sendBuffer_outArmed buff low writes)
    obtain ⟨conn, before, -, same⟩ := (sendBuffer_tells s fd buff low writes).2 conn' managed'
    exact ⟨conn, before, same⟩
  | @onRW fd r w answers conn before type =>
    exact onRW_waits before r w answers waits
  | pauseRead fd => exact setPaused_waits true managed (queued fd (Or.inl rfl))
  | resumeRead fd => exact setPaused_waits false managed (queued fd (Or.inr rfl))
  | lingerClose fd => exact lingerClose_waits waits
  | closeConn fd => exact .none (closeConn_clears s fd).1

/-! ### The answers -/

theorem connHas_other {op : SocketOp} {p : Conn → Bool} (step : s.Step op s') (other : fd ≠ opFd op) :
    s'.connHas fd p = s.connHas fd p := by
  rw [connHas, connHas, show s'.conns fd = s.conns fd from congrArg Slot.conn (step_other step other)]

/-- An operation posts no answer and begins no attempt. -/
structure Unanswered (s s' : SocketServer) (fd : Int32) : Prop where
  posted : ∃ new, s'.posted = s.posted ++ new ∧ ∀ m ∈ new, m.1.subtype.answers = false
  connecting : s'.connHas fd Conn.connecting = true → s.connHas fd Conn.connecting = true

theorem Tells.unanswered {serviceId : UInt32} (h : Tells s s' fd serviceId) : Unanswered s s' fd := by
  obtain ⟨new, posted, reports⟩ := h.posted
  refine ⟨⟨new, posted, fun m mem => (reports m mem).subtype.2⟩, fun connecting => ?_⟩
  obtain ⟨conn', managed', connecting'⟩ := (Option.any_eq_true _ _).mp connecting
  obtain ⟨conn, managed, -, same⟩ := h.conns conn' managed'
  exact (connHas_eq managed).trans (same.symm.trans connecting')

/-- A new connection that is established from the start. -/
theorem Unanswered.opened (new : List (SocketMsg × UInt32)) (conn : Conn)
    (posted : s'.posted = s.posted ++ new) (silent : ∀ m ∈ new, m.1.subtype.answers = false)
    (managed : s'.conns fd = some conn) (connecting : conn.connecting = false) :
    Unanswered s s' fd := by
  refine ⟨⟨new, posted, silent⟩, fun connecting' => ?_⟩
  rw [connHas_eq managed, connecting] at connecting'
  cases connecting'

theorem connHas_connect (unmanaged : s.conns fd = none) (serviceId : UInt32)
    (ip : Option (List UInt8)) :
    (s.connect fd serviceId ip).connHas fd Conn.connecting = ip.isNone := by
  cases ip <;> simp [connHas, connect, addConn, unmanaged, modConn, addEvent, epollAdd, modifyEvent]

theorem posted_connect (serviceId : UInt32) (ip : Option (List UInt8)) :
    (s.connect fd serviceId ip).posted = s.posted ++ (ip.map fun ip =>
      ({ socketMsg .connect fd with buff := ip }, serviceId)).toList := by
  cases ip with
  | some ip => exact congrArg (· ++ [_]) (posted_addConn _)
  | none =>
    rw [Option.map_none, Option.toList_none, List.append_nil]
    exact posted_addConn _

/-- Only `Connect` and the completion of an attempt post answers or begin attempts. -/
theorem step_unanswered {op : SocketOp} (step : s.Step op s')
    (free : s.sockets (opFd op) = none → s.conns (opFd op) = none)
    (connects : ∀ fd serviceId ip, op ≠ .connect fd serviceId ip)
    (completes : ∀ fd r answers, op = .onRW fd r true answers →
      s.connHas fd Conn.connecting = false) : Unanswered s s' (opFd op) := by
  cases step with
  | @openFd fd closed =>
    have opened : Tells s (s.setSocket fd (some {})) fd 0 := .same rfl rfl
    exact opened.unanswered
  | @listen fd serviceId closed =>
    have unmanaged : s.conns fd = none := free closed
    refine .opened [] { type := .listen, serviceId } ?_ nofun ?_ rfl
    · rw [List.append_nil]
      exact posted_addConn _
    · simp [opFd, SocketServer.listen, addConn, unmanaged, addEvent, epollAdd]
  | @accept listenFd fd conn listener type closed =>
    have unmanaged : s.conns fd = none := free closed
    refine .opened [_] { type := .client, serviceId := conn.serviceId }
      (congrArg (· ++ [_]) (posted_addConn _)) (fun m mem => ?_) ?_ rfl
    · rw [List.mem_singleton.mp mem]
      rfl
    · simp [opFd, onAccept, addConn, unmanaged, epollAdd]
  | @connect fd serviceId ip closed => exact absurd rfl (connects fd serviceId ip)
  | bind fd serviceId datagram =>
    change Unanswered s (s.bind fd serviceId datagram).2 fd
    unfold bind
    have unchanged : Unanswered s s fd := (show Tells s s fd 0 from .refl s).unanswered
    split
    · exact unchanged
    split
    · exact unchanged
    · rename_i unmanaged
      replace unmanaged : s.conns fd = none := by simpa using unmanaged
      refine .opened [] { type := if datagram then .udp else .client, serviceId, isBind := true } ?_
        nofun ?_ rfl
      · rw [List.append_nil]
        exact posted_addConn _
      · simp [addConn, unmanaged, modConn, addEvent, epollAdd]
  | sendBuffer fd buff low writes =>
    obtain ⟨⟨new, posted, warns⟩, conns⟩ := sendBuffer_tells s fd buff low writes
    refine ⟨⟨new, posted, fun m mem => by rw [warns m mem]; rfl⟩, fun connecting => ?_⟩
    obtain ⟨conn', managed', connecting'⟩ := (Option.any_eq_true _ _).mp connecting
    obtain ⟨conn, managed, -, same⟩ := conns conn' managed'
    exact (connHas_eq managed).trans (same.symm.trans connecting')
  | @onRW fd r w answers conn managed type =>
    refine (onRW_tells managed ?_).unanswered
    rintro ⟨rfl, connecting⟩
    cases (completes fd r answers rfl).symm.trans ((connHas_eq managed).trans connecting)
  | pauseRead fd => exact (setPaused_tells s fd true 0).unanswered
  | resumeRead fd => exact (setPaused_tells s fd false 0).unanswered
  | lingerClose fd => exact (lingerClose_tells s fd 0).unanswered
  | closeConn fd => exact (closeConn_tells s fd 0).unanswered

end SocketServer

namespace Attempts

variable {s : Attempts} {op : SocketOp} {server : SocketServer}

/-- The answers are about the completed attempts, and no attempt that is under way is completed. -/
structure Numbered (s : Attempts) : Prop where
  answers : s.answers.map Prod.fst = s.handled
  once : s.handled.Nodup
  past : ∀ a ∈ s.handled, a < s.count
  waiting : ∀ fd, s.server.connHas fd Conn.connecting = true →
    s.attempt fd < s.count ∧ s.attempt fd ∉ s.handled
  apart : ∀ fd fd', s.server.connHas fd Conn.connecting = true →
    s.server.connHas fd' Conn.connecting = true → s.attempt fd = s.attempt fd' → fd = fd'

theorem Numbered.answered (h : s.Numbered) : s.Answered := by
  intro a handled
  rw [h.answers]
  exact List.count_eq_one_of_mem h.once handled

/-- The answers after an operation. -/
theorem become_answers {new : List (SocketMsg × UInt32)} (posted : server.posted = s.server.posted ++ new) :
    (s.become op server).answers.map Prod.fst = s.answers.map Prod.fst ++
      (new.filter (·.1.subtype.answers)).map fun m => (s.numbers op).1 m.1.fd := by
  rw [become, posted, List.drop_left, List.map_append, List.map_map]
  rfl

/-- An operation that is not about an attempt. -/
theorem Numbered.unanswered (h : s.Numbered) (step : s.server.Step op server)
    (quiet : SocketServer.Unanswered s.server server (SocketServer.opFd op))
    (numbers : s.numbers op = (s.attempt, s.count)) (completes : s.completes op = []) :
    (s.become op server).Numbered := by
  obtain ⟨new, posted, silent⟩ := quiet.posted
  have attempt : (s.become op server).attempt = s.attempt := congrArg Prod.fst numbers
  have count : (s.become op server).count = s.count := congrArg Prod.snd numbers
  have handled : (s.become op server).handled = s.handled := by
    rw [become, completes, List.append_nil]
  have before : ∀ fd, server.connHas fd Conn.connecting = true →
      s.server.connHas fd Conn.connecting = true := by
    intro fd connecting
    by_cases here : fd = SocketServer.opFd op
    · subst here
      exact quiet.connecting connecting
    · rwa [SocketServer.connHas_other step here] at connecting
  constructor
  · rw [become_answers posted, handled, List.filter_eq_nil_iff.mpr (by simpa using silent),
      List.map_nil, List.append_nil]
    exact h.answers
  · rw [handled]
    exact h.once
  · rw [handled, count]
    exact h.past
  · intro fd connecting
    rw [handled, attempt, count]
    exact h.waiting fd (before fd connecting)
  · intro fd fd' connecting connecting'
    rw [attempt]
    exact h.apart fd fd' (before fd connecting) (before fd' connecting')

/-- `Connect`, with the answer of an attempt that succeeds at once. -/
theorem Numbered.connect {fd : Int32} {serviceId : UInt32} {ip : Option (List UInt8)} (h : s.Numbered)
    (step : s.server.Step (.connect fd serviceId ip) (s.server.connect fd serviceId ip))
    (unmanaged : s.server.conns fd = none) :
    (s.become (.connect fd serviceId ip) (s.server.connect fd serviceId ip)).Numbered := by
  have here := SocketServer.connHas_connect unmanaged serviceId ip
  have there : ∀ {fd'}, fd' ≠ fd → (s.server.connect fd serviceId ip).connHas fd' Conn.connecting =
      s.server.connHas fd' Conn.connecting := fun other => SocketServer.connHas_other step other
  have attempt : ∀ {fd'}, fd' ≠ fd →
      (s.become (.connect fd serviceId ip) (s.server.connect fd serviceId ip)).attempt fd' =
        s.attempt fd' := fun other => Function.update_of_ne other ..
  have first : (s.become (.connect fd serviceId ip) (s.server.connect fd serviceId ip)).attempt fd =
      s.count := Function.update_self ..
  have count : (s.become (.connect fd serviceId ip) (s.server.connect fd serviceId ip)).count =
      s.count + 1 := rfl
  have new : s.count ∉ s.handled := fun mem => Nat.lt_irrefl _ (h.past _ mem)
  have handled : ∀ a ∈ (s.become (.connect fd serviceId ip)
      (s.server.connect fd serviceId ip)).handled, a ∈ s.handled ∨ ip.isNone = false ∧ a = s.count := by
    intro a mem
    refine (List.mem_append.mp mem).imp_right fun mem => ?_
    cases ip with
    | some ip => exact ⟨rfl, List.mem_singleton.mp mem⟩
    | none => cases mem
  constructor
  · rw [become_answers (SocketServer.posted_connect serviceId ip), h.answers]
    refine congrArg (s.handled ++ ·) ?_
    cases ip with
    | some ip => exact congrArg (fun a => [a]) (Function.update_self ..)
    | none => rfl
  · refine h.once.append ?_ ?_
    · cases ip with
      | some ip => exact List.nodup_singleton _
      | none => exact List.nodup_nil
    · cases ip with
      | some ip => exact List.disjoint_singleton.mpr new
      | none => exact List.disjoint_nil_right _
  · intro a mem
    rw [count]
    rcases handled a mem with mem | ⟨-, rfl⟩
    · exact Nat.lt_succ_of_lt (h.past a mem)
    · exact Nat.lt_succ_self _
  · intro fd' connecting
    by_cases same : fd' = fd
    · subst same
      rw [first, count]
      refine ⟨Nat.lt_succ_self _, fun mem => ?_⟩
      rcases handled _ mem with mem | ⟨done, -⟩
      · exact new mem
      · cases (here.symm.trans connecting).symm.trans done
    · rw [attempt same, count]
      obtain ⟨lt, open_⟩ := h.waiting fd' ((there same).symm.trans connecting)
      refine ⟨Nat.lt_succ_of_lt lt, fun mem => ?_⟩
      rcases handled _ mem with mem | ⟨-, eq⟩
      · exact open_ mem
      · exact Nat.ne_of_lt lt eq
  · have fresh : ∀ fd', fd' ≠ fd → s.server.connHas fd' Conn.connecting = true →
        s.attempt fd' ≠ s.count := fun fd' _ connecting => Nat.ne_of_lt (h.waiting fd' connecting).1
    intro fd₁ fd₂ connecting₁ connecting₂ eq
    by_cases same₁ : fd₁ = fd
    · by_cases same₂ : fd₂ = fd
      · exact same₁.trans same₂.symm
      · rw [same₁, first, attempt same₂] at eq
        exact absurd eq.symm (fresh fd₂ same₂ ((there same₂).symm.trans connecting₂))
    · by_cases same₂ : fd₂ = fd
      · rw [same₂, first, attempt same₁] at eq
        exact absurd eq (fresh fd₁ same₁ ((there same₁).symm.trans connecting₁))
      · rw [attempt same₁, attempt same₂] at eq
        exact h.apart fd₁ fd₂ ((there same₁).symm.trans connecting₁)
          ((there same₂).symm.trans connecting₂) eq

/-- The completion of an attempt. -/
theorem Numbered.complete {fd : Int32} {r : Bool} {answers : Answers} {conn : Conn} (h : s.Numbered)
    (step : s.server.Step (.onRW fd r true answers) (s.server.onRW fd r true answers))
    (managed : s.server.conns fd = some conn) (connecting : conn.connecting = true) :
    (s.become (.onRW fd r true answers) (s.server.onRW fd r true answers)).Numbered := by
  obtain ⟨m, new, posted, here, answer, reports, -, done⟩ :=
    SocketServer.onRW_answers r answers managed connecting
  have waits : s.server.connHas fd Conn.connecting = true :=
    (SocketServer.connHas_eq managed).trans connecting
  obtain ⟨lt, open_⟩ := h.waiting fd waits
  have completes : s.completes (.onRW fd r true answers) = [s.attempt fd] := by
    simp [Attempts.completes, waits]
  have handled : (s.become (.onRW fd r true answers) (s.server.onRW fd r true answers)).handled =
      s.handled ++ [s.attempt fd] := by rw [become, completes]
  have others : ∀ fd', (s.server.onRW fd r true answers).connHas fd' Conn.connecting = true →
      fd' ≠ fd ∧ s.server.connHas fd' Conn.connecting = true := by
    intro fd' connecting'
    have ne : fd' ≠ fd := by
      rintro rfl
      obtain ⟨conn', managed', isConnecting⟩ := (Option.any_eq_true _ _).mp connecting'
      cases (done conn' managed').2.symm.trans isConnecting
    exact ⟨ne, (SocketServer.connHas_other step ne).symm.trans connecting'⟩
  constructor
  · have none : new.filter (·.1.subtype.answers) = [] := by
      refine List.filter_eq_nil_iff.mpr fun m' mem => ?_
      simp [(reports m' mem).subtype.2]
    have kept : ((m, conn.serviceId) :: new).filter (·.1.subtype.answers) = [(m, conn.serviceId)] := by
      rw [List.filter_cons, if_pos answer, none]
    rw [become_answers posted, handled, h.answers, kept]
    exact congrArg (fun fd => s.handled ++ [s.attempt fd]) here
  · rw [handled]
    exact h.once.append (List.nodup_singleton _) (List.disjoint_singleton.mpr open_)
  · intro a mem
    rw [handled] at mem
    rcases List.mem_append.mp mem with mem | mem
    · exact h.past a mem
    · rw [List.mem_singleton.mp mem]
      exact lt
  · intro fd' connecting'
    obtain ⟨ne, before⟩ := others fd' connecting'
    obtain ⟨lt', open'⟩ := h.waiting fd' before
    refine ⟨lt', fun mem => ?_⟩
    rw [handled] at mem
    rcases List.mem_append.mp mem with mem | mem
    · exact open' mem
    · exact ne (h.apart fd' fd before waits (List.mem_singleton.mp mem))
  · intro fd₁ fd₂ connecting₁ connecting₂
    exact h.apart fd₁ fd₂ (others fd₁ connecting₁).2 (others fd₂ connecting₂).2

/-- Every operation keeps the numbers of the attempts. -/
theorem Numbered.step (h : s.Numbered) (step : s.server.Step op server)
    (free : ∀ fd, s.server.sockets fd = none → s.server.conns fd = none) :
    (s.become op server).Numbered := by
  cases op with
  | connect fd serviceId ip =>
    cases step with
    | connect closed => exact h.connect (.connect closed) (free fd closed)
  | onRW fd r w answers =>
    cases step with
    | @onRW _ _ _ _ conn managed type =>
      by_cases completes : w = true ∧ conn.connecting = true
      · obtain ⟨rfl, connecting⟩ := completes
        exact h.complete (.onRW managed type) managed connecting
      · refine h.unanswered (.onRW managed type)
          (SocketServer.onRW_tells managed completes).unanswered rfl ?_
        rw [Attempts.completes, SocketServer.connHas_eq managed]
        exact if_neg (by simpa using completes)
  | _ => exact h.unanswered step (SocketServer.step_unanswered step (free _) nofun nofun) rfl rfl

end Attempts

/-- In every run in which reading from a connection that is being made is paused and resumed only
while data is queued, every such connection waits for its write event, and every completed attempt
has one answer. -/
theorem attempts_complete {s : Attempts} {tr : List SocketOp}
    (run : (attempts.restrict Attempts.PausesQueued).Run s tr) :
    s.server.ConnectingArmed ∧ s.Answered := by
  suffices (∀ fd, (s.server.slot fd).Managed ∧ (s.server.slot fd).Waits) ∧ s.Numbered by
    refine ⟨fun fd conn managed connecting => ?_, this.2.answered⟩
    exact (this.1 fd).2 conn managed connecting
  refine run.stateInvariant
    (P := fun s => (∀ fd, (s.server.slot fd).Managed ∧ (s.server.slot fd).Waits) ∧ s.Numbered) ?_ ?_
  · rintro _ rfl
    refine ⟨fun fd => ⟨Slot.Managed.initial, .none rfl⟩, rfl, List.nodup_nil, nofun, ?_, ?_⟩
    · intro fd connecting
      cases connecting
    · intro fd fd' connecting
      cases connecting
  · rintro s op s' ⟨slots, numbered⟩ ⟨⟨server, step, rfl⟩, queued⟩
    have managed : ∀ fd, (server.slot fd).Managed := fun fd =>
      (SocketServer.step_slots (P := fun _ => True) (I := fun _ => True) step
        (fun _ _ _ _ _ => trivial) (fun _ => trivial) (fun fd => ⟨(slots fd).1, trivial⟩) fd).1
    refine ⟨fun fd => ⟨managed fd, ?_⟩, numbered.step step fun fd closed => ?_⟩
    · by_cases here : fd = SocketServer.opFd op
      · subst here
        refine SocketServer.step_waits step (slots _).1 (slots _).2 ?_
        rintro fd (rfl | rfl) <;> exact queued
      · rw [show (s.become op server).server.slot fd = s.server.slot fd from
          SocketServer.step_other step here]
        exact (slots fd).2
    · by_contra managed
      obtain ⟨k, socket, -⟩ := (slots fd).1.registered (Option.isSome_iff_ne_none.mpr managed)
      cases closed.symm.trans socket

/-- A connection on which data is sent and reading paused before it is made. -/
theorem attempts_complete_paused : ∃ s tr, (attempts.restrict Attempts.PausesQueued).Run s tr ∧
    s.handled = [0] ∧ s.server.ConnectingArmed ∧ s.Answered := by
  let s₀ : Attempts := ⟨.initial, fun _ => 0, 0, [], []⟩
  let s₁ := s₀.become (.connect 5 7 none) (s₀.server.connect 5 7 none)
  let s₂ := s₁.become (.sendBuffer 5 [1] false [.eagain]) (s₁.server.sendBuffer 5 [1] false [.eagain]).2
  let s₃ := s₂.become (.pauseRead 5) (s₂.server.pauseRead 5).2
  let s₄ := s₃.become (.onRW 5 false true {}) (s₃.server.onRW 5 false true {})
  have step₁ : (attempts.restrict Attempts.PausesQueued).step s₀ (.connect 5 7 none) s₁ :=
    ⟨⟨_, .connect rfl, rfl⟩, trivial⟩
  have step₂ : (attempts.restrict Attempts.PausesQueued).step s₁ (.sendBuffer 5 [1] false [.eagain])
      s₂ := ⟨⟨_, .sendBuffer .., rfl⟩, trivial⟩
  have step₃ : (attempts.restrict Attempts.PausesQueued).step s₂ (.pauseRead 5) s₃ :=
    ⟨⟨_, .pauseRead .., rfl⟩, fun _ => rfl⟩
  have managed : s₃.server.conns 5 = some ((s₃.server.conns 5).get rfl) := rfl
  have step₄ : (attempts.restrict Attempts.PausesQueued).step s₃ (.onRW 5 false true {}) s₄ :=
    ⟨⟨_, .onRW managed (by decide), rfl⟩, trivial⟩
  have run₀ : (attempts.restrict Attempts.PausesQueued).Run s₀ [] := .init rfl
  have run₄ := (((run₀.step step₁).step step₂).step step₃).step step₄
  exact ⟨s₄, _, run₄, rfl, attempts_complete run₄⟩

/-- Reading from a connection that is being made is paused while nothing is queued. -/
theorem not_attempts_complete_paused :
    ¬∀ s tr, attempts.Run s tr → s.server.ConnectingArmed ∧ s.Answered := by
  intro claim
  let s₀ : Attempts := ⟨.initial, fun _ => 0, 0, [], []⟩
  let s₁ := s₀.become (.connect 5 7 none) (s₀.server.connect 5 7 none)
  let s₂ := s₁.become (.pauseRead 5) (s₁.server.pauseRead 5).2
  have run₀ : attempts.Run s₀ [] := .init rfl
  have step₁ : attempts.step s₀ (.connect 5 7 none) s₁ := ⟨_, .connect rfl, rfl⟩
  have step₂ : attempts.step s₁ (.pauseRead 5) s₂ := ⟨_, .pauseRead .., rfl⟩
  have run₂ := (run₀.step step₁).step step₂
  obtain ⟨k, e, socket, events, out⟩ :=
    (claim s₂ _ run₂).1 5 ((s₂.server.conns 5).get rfl) rfl rfl
  have silent : s₂.server.sockets 5 = some { events := some ⟨true, false, false⟩ } := rfl
  cases silent.symm.trans socket
  cases events
  cases out

end Starnet
