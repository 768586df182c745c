import Starnet.Socket.Slot

/-! What a service hears of a connection. Work on a connection posts `DATA`, `CLOSE`, `UDP` and
`WARNING` to its service; only `OnConnectFinish` posts `CONNECT` or `ERROR`, and it does so once.
-/

namespace Starnet

/-- `CONNECT` or `ERROR`. -/
def SocketSubtype.answers : SocketSubtype → Bool
  | .connect | .error => true
  | _ => false

namespace SocketServer

/-- A message to the service of a connection that is neither its introduction nor an answer. -/
structure Report (fd : Int32) (serviceId : UInt32) (m : SocketMsg × UInt32) : Prop where
  fd : m.1.fd = fd
  service : m.2 = serviceId
  subtype : m.1.subtype ≠ .accept ∧ m.1.subtype.answers = false

/-- Work on a connection of the service: it posts reports, and neither makes the connection nor
lets it connect. -/
structure Tells (s s' : SocketServer) (fd : Int32) (serviceId : UInt32) : Prop where
  posted : ∃ new, s'.posted = s.posted ++ new ∧ ∀ m ∈ new, Report fd serviceId m
  conns : ∀ conn', s'.conns fd = some conn' → ∃ conn, s.conns fd = some conn ∧
    conn'.serviceId = conn.serviceId ∧ conn'.connecting = conn.connecting

/-- The connection of a descriptor, if there is one, is of the service. -/
def Serves (s : SocketServer) (fd : Int32) (serviceId : UInt32) : Prop :=
  ∀ conn, s.conns fd = some conn → conn.serviceId = serviceId

variable {s s' s'' : SocketServer} {fd : Int32} {serviceId : UInt32} {conn conn' : Conn}

namespace Tells

theorem same (posted : s'.posted = s.posted) (conns : s'.conns fd = s.conns fd) :
    Tells s s' fd serviceId :=
  ⟨⟨[], by rw [posted, List.append_nil], nofun⟩,
    fun conn' managed => ⟨conn', conns ▸ managed, rfl, rfl⟩⟩

theorem refl (s : SocketServer) : Tells s s fd serviceId := same rfl rfl

theorem serves (h : Tells s s' fd serviceId) (serves : s.Serves fd serviceId) :
    s'.Serves fd serviceId := by
  intro conn' managed'
  obtain ⟨conn, managed, service, -⟩ := h.conns conn' managed'
  exact service.trans (serves conn managed)

theorem trans (h : Tells s s' fd serviceId) (h' : Tells s' s'' fd serviceId) :
    Tells s s'' fd serviceId := by
  obtain ⟨new, posted, reports⟩ := h.posted
  obtain ⟨new', posted', reports'⟩ := h'.posted
  refine ⟨⟨new ++ new', by rw [posted', posted, List.append_assoc], fun m mem => ?_⟩,
    fun conn'' managed'' => ?_⟩
  · exact (List.mem_append.mp mem).elim (reports m) (reports' m)
  · obtain ⟨conn', managed', service', connecting'⟩ := h'.conns conn'' managed''
    obtain ⟨conn, managed, service, connecting⟩ := h.conns conn' managed'
    exact ⟨conn, managed, service'.trans service, connecting'.trans connecting⟩

/-- A step that posts nothing and keeps the connection. -/
theorem keep (h : Tells s s' fd serviceId) (posted : s''.posted = s'.posted)
    (conns : s''.conns fd = s'.conns fd) : Tells s s'' fd serviceId :=
  h.trans (same posted conns)

/-- An assignment to other fields of the connection. -/
theorem assign (h : Tells s s' fd serviceId) (managed : s'.conns fd = some conn)
    (service : conn'.serviceId = conn.serviceId) (connecting : conn'.connecting = conn.connecting) :
    Tells s (s'.setConn fd (some conn')) fd serviceId := by
  refine h.trans ⟨⟨[], (List.append_nil _).symm, nofun⟩, fun conn₁ managed₁ => ?_⟩
  rw [conns_setConn] at managed₁
  cases managed₁
  exact ⟨conn, managed, service, connecting⟩

theorem setBuffer (h : Tells s s' fd serviceId) {wb : Option ConnWriteBuffer} :
    Tells s (s'.setBuffer fd wb) fd serviceId := h.keep rfl rfl

theorem removeConn (h : Tells s s' fd serviceId) : Tells s (s'.removeConn fd) fd serviceId := by
  refine h.trans ⟨⟨[], (List.append_nil _).symm, nofun⟩, fun conn' managed => ?_⟩
  rw [show (s'.removeConn fd).conns fd = none from conns_setConn ..] at managed
  cases managed

theorem post (h : Tells s s' fd serviceId) {m : SocketMsg} (here : m.fd = fd)
    (subtype : m.subtype ≠ .accept ∧ m.subtype.answers = false) {k : UInt32} (own : k = serviceId) :
    Tells s (s'.post m k) fd serviceId := by
  refine h.trans ⟨⟨[(m, k)], rfl, fun m' mem => ?_⟩, fun conn managed => ⟨conn, managed, rfl, rfl⟩⟩
  rw [List.mem_singleton.mp mem]
  exact ⟨here, own, subtype⟩

end Tells

/-! ### Calls and events -/

theorem dropConn_tells (s : SocketServer) (fd : Int32) (serviceId : UInt32) :
    Tells s (s.dropConn fd) fd serviceId := by
  have removed : Tells s (s.removeConn fd) fd serviceId := (Tells.refl s).removeConn
  rw [dropConn]
  cases s.connHas fd Conn.isBind with
  | true => exact removed.keep rfl rfl
  | false => exact removed.keep rfl rfl

theorem lingerClose_tells (s : SocketServer) (fd : Int32) (serviceId : UInt32) :
    Tells s (s.lingerClose fd) fd serviceId := by
  unfold lingerClose
  split
  · exact dropConn_tells ..
  split
  · exact .refl s
  dsimp only
  split
  · exact (Tells.refl s).setBuffer
  · exact (Tells.refl s).setBuffer.trans (dropConn_tells ..)

theorem closeConn_tells (s : SocketServer) (fd : Int32) (serviceId : UInt32) :
    Tells s (s.closeConn fd) fd serviceId := by
  have removed : Tells s (s.removeConn fd) fd serviceId := (Tells.refl s).removeConn
  rw [closeConn]
  cases s.connHas fd Conn.isBind <;> cases (s.conns fd).isSome <;> exact removed.keep rfl rfl

theorem notifyClose_tells (s : SocketServer) (fd : Int32) (conn : Conn) :
    Tells s (s.notifyClose fd conn) fd conn.serviceId := by
  have posted : Tells s (s.post (socketMsg .close fd) conn.serviceId) fd conn.serviceId :=
    (Tells.refl s).post rfl ⟨by nofun, rfl⟩ rfl
  unfold notifyClose
  cases conn.isBind with
  | true => exact posted.removeConn.keep rfl rfl
  | false => exact posted.removeConn.keep rfl rfl

theorem setPaused_tells (s : SocketServer) (fd : Int32) (paused : Bool) (serviceId : UInt32) :
    Tells s (s.setPaused fd paused).2 fd serviceId := by
  unfold setPaused
  split
  · exact .refl s
  · rename_i conn managed
    have assigned : Tells s (s.setConn fd (some { conn with paused })) fd serviceId :=
      (Tells.refl s).assign managed rfl rfl
    rw [modConn, managed]
    exact assigned.keep rfl rfl

/-- `SendBuffer` posts nothing but a warning. -/
theorem sendBuffer_tells (s : SocketServer) (fd : Int32) (buff : List UInt8) (low : Bool)
    (writes : List WriteOutcome) :
    (∃ new, (s.sendBuffer fd buff low writes).2.posted = s.posted ++ new ∧
      ∀ m ∈ new, m.1.subtype = .warning) ∧
    ∀ conn', (s.sendBuffer fd buff low writes).2.conns fd = some conn' → ∃ conn,
      s.conns fd = some conn ∧ conn'.serviceId = conn.serviceId ∧
        conn'.connecting = conn.connecting := by
  unfold sendBuffer
  split
  · exact ⟨⟨[], (List.append_nil _).symm, nofun⟩, fun conn managed => ⟨conn, managed, rfl, rfl⟩⟩
  · rename_i conn managed
    dsimp only
    split
    · exact ⟨⟨[], (List.append_nil _).symm, nofun⟩, fun conn managed => ⟨conn, managed, rfl, rfl⟩⟩
    · generalize ((s.writeBuffers fd).getD {}).send ⟨conn.sent.length, low, buff⟩
        ⟨writes, conn.calls⟩ = sent
      generalize queued : (s.setBuffer fd (some sent.1.warn.1)).setConn fd (some { conn with
          sent := conn.sent ++ [⟨conn.sent.length, low, buff⟩], calls := sent.2.2.calls }) = t
      have conns : ∀ conn', t.conns fd = some conn' → ∃ conn, s.conns fd = some conn ∧
          conn'.serviceId = conn.serviceId ∧ conn'.connecting = conn.connecting := by
        intro conn' managed'
        rw [← queued, conns_setConn] at managed'
        cases managed'
        exact ⟨conn, managed, rfl, rfl⟩
      have posted : t.posted = s.posted := by rw [← queued]; rfl
      cases sent.2.1 <;> cases sent.1.warn.2
      · exact ⟨⟨[], by rw [List.append_nil]; exact posted, nofun⟩, conns⟩
      · refine ⟨⟨[_], congrArg (· ++ _) posted, fun m mem => ?_⟩, conns⟩
        rw [List.mem_singleton.mp mem]
        rfl
      · exact ⟨⟨[], by rw [List.append_nil]; exact posted, nofun⟩, conns⟩
      · refine ⟨⟨[_], congrArg (· ++ _) posted, fun m mem => ?_⟩, conns⟩
        rw [List.mem_singleton.mp mem]
        rfl

theorem onWriteable_tells (writes : List WriteOutcome) (serves : s.Serves fd serviceId) :
    Tells s (s.onWriteable fd writes) fd serviceId := by
  unfold onWriteable
  split
  · exact .refl s
  · rename_i conn managed
    rcases eq : s.flushWriteable fd conn writes with ⟨emptied, needNotify, t⟩
    have flushed : Tells s t fd serviceId := by
      unfold flushWriteable at eq
      split at eq
      · cases eq
        exact .refl s
      · cases eq
        exact (Tells.refl s).setBuffer.assign managed rfl rfl
    dsimp only [finishWriteable]
    split
    · have shut : Tells s (t.shutdownRead fd) fd serviceId := flushed.keep rfl rfl
      exact shut.post rfl ⟨by nofun, rfl⟩ (serves conn managed)
    · split
      · exact flushed.keep rfl rfl
      · exact flushed

/-- The answer to a connection attempt. -/
theorem onConnectFinish_posted (s : SocketServer) (fd : Int32) (conn : Conn) (answers : Answers) :
    ∃ m : SocketMsg, (s.onConnectFinish fd conn answers).posted = s.posted ++ [(m, conn.serviceId)] ∧
      m.fd = fd ∧ m.subtype.answers = true ∧
      (m.subtype = .connect ∨ (s.onConnectFinish fd conn answers).conns fd = none) := by
  unfold onConnectFinish
  split
  · exact ⟨_, rfl, rfl, rfl, Or.inr (conns_setConn ..)⟩
  · exact ⟨_, rfl, rfl, rfl, Or.inl rfl⟩

theorem readUdp_tells (s : SocketServer) (fd : Int32) (serviceId : UInt32)
    (outcomes : List RecvOutcome) : Tells s (s.readUdp fd serviceId outcomes) fd serviceId := by
  fun_induction readUdp s fd serviceId outcomes with
  | case1 s payload udpAddr outcomes buff h ih =>
    exact ((Tells.refl s).post rfl ⟨by rintro ⟨⟩, rfl⟩ rfl).trans ih
  | case2 => exact .refl _
  | case3 => exact .refl _

theorem readRound_tells (outcome : ReadOutcome) (serves : s.Serves fd serviceId) :
    Tells s (s.readRound fd outcome).2 fd serviceId := by
  unfold readRound
  split
  · exact .refl s
  · rename_i conn managed
    obtain ⟨cap, grows⟩ := growBuffer_eq conn
    have service : (growBuffer conn).serviceId = conn.serviceId := by rw [grows]
    have connecting : (growBuffer conn).connecting = conn.connecting := by rw [grows]
    have own : (growBuffer conn).serviceId = serviceId := service.trans (serves conn managed)
    have grown : Tells s (s.setConn fd (some (growBuffer conn))) fd serviceId :=
      (Tells.refl s).assign managed service connecting
    have managed' : (s.setConn fd (some (growBuffer conn))).conns fd = some (growBuffer conn) :=
      conns_setConn ..
    have closed := grown.trans (own ▸ notifyClose_tells _ fd (growBuffer conn))
    cases outcome with
    | data bytes =>
      dsimp only
      split
      · obtain ⟨size, adapts⟩ := adaptReadSize_eq (growBuffer conn)
          (bytes.take (growBuffer conn).readSize).length
        rw [adapts]
        have told : Tells s ((s.setConn fd (some (growBuffer conn))).post
            { socketMsg .data fd with buff := bytes.take (growBuffer conn).readSize }
            (growBuffer conn).serviceId) fd serviceId := grown.post rfl ⟨by nofun, rfl⟩ own
        exact told.assign managed' rfl rfl
      · exact closed
    | eof | error => exact closed
    | eagain | eintr => exact grown

theorem readData_tells (outcomes : List ReadOutcome) (serves : s.Serves fd serviceId) :
    Tells s (s.readData fd outcomes) fd serviceId := by
  induction outcomes generalizing s with
  | nil => exact readRound_tells _ serves
  | cons outcome outcomes ih =>
    have round : Tells s (s.readRound fd outcome).2 fd serviceId := readRound_tells outcome serves
    unfold readData
    split
    · rename_i t eq
      rw [eq] at round
      exact round.trans (ih (round.serves serves))
    · rename_i t eq
      rw [eq] at round
      exact round

/-- The second half of `OnRW`. -/
theorem readEvent_tells {r : Bool} {answers : Answers} (serves : s.Serves fd serviceId) :
    Tells s (match s.conns fd with
      | some conn =>
        if r && !conn.connecting && !conn.paused then
          if conn.type = .udp then s.readUdp fd conn.serviceId answers.datagrams
          else s.readData fd answers.reads
        else s
      | none => s) fd serviceId := by
  split
  · rename_i conn managed
    split
    · split
      · exact serves conn managed ▸ readUdp_tells s fd conn.serviceId answers.datagrams
      · exact readData_tells _ serves
    · exact .refl s
  · exact .refl s

theorem serves_of_managed (managed : s.conns fd = some conn) : s.Serves fd conn.serviceId := by
  intro conn' managed'
  cases managed.symm.trans managed'
  rfl

/-- An event of a connection posts reports, unless it ends a connection attempt. -/
theorem onRW_tells {r w : Bool} {answers : Answers} (managed : s.conns fd = some conn)
    (still : ¬(w = true ∧ conn.connecting = true)) :
    Tells s (s.onRW fd r w answers) fd conn.serviceId := by
  have serves := serves_of_managed managed
  unfold onRW
  rw [managed]
  dsimp only
  have first : Tells s (if w then if conn.connecting then s.onConnectFinish fd conn answers
      else s.onWriteable fd answers.writes else s) fd conn.serviceId := by
    split
    · rename_i write
      split
      · rename_i connecting
        exact absurd ⟨write, connecting⟩ still
      · exact onWriteable_tells _ serves
    · exact .refl s
  exact first.trans (readEvent_tells (first.serves serves))

/-- An event that ends a connection attempt posts one answer, and reports only after `CONNECT`. -/
theorem onRW_answers (r : Bool) (answers : Answers) (managed : s.conns fd = some conn)
    (connecting : conn.connecting = true) : ∃ (m : SocketMsg) (new : List (SocketMsg × UInt32)),
      (s.onRW fd r true answers).posted = s.posted ++ (m, conn.serviceId) :: new ∧ m.fd = fd ∧
      m.subtype.answers = true ∧ (∀ m' ∈ new, Report fd conn.serviceId m') ∧
      (m.subtype ≠ .connect → new = [] ∧ (s.onRW fd r true answers).conns fd = none) ∧
      ∀ conn', (s.onRW fd r true answers).conns fd = some conn' →
        conn'.serviceId = conn.serviceId ∧ conn'.connecting = false := by
  obtain ⟨m, posted, here, answer, gone⟩ := onConnectFinish_posted s fd conn answers
  have finished : ∀ conn', (s.onConnectFinish fd conn answers).conns fd = some conn' →
      conn'.serviceId = conn.serviceId ∧ conn'.connecting = false := by
    intro conn' managed'
    unfold onConnectFinish at managed'
    split at managed'
    · cases (show (none : Option Conn) = some conn' from (conns_setConn ..).symm.trans managed')
    · have assigned : (s.modConn fd fun conn => { conn with connecting := false }).conns fd =
          some { conn with connecting := false } := by simp [modConn, managed]
      cases assigned.symm.trans managed'
      exact ⟨rfl, rfl⟩
  have serves : (s.onConnectFinish fd conn answers).Serves fd conn.serviceId :=
    fun conn' managed' => (finished conn' managed').1
  have reads : Tells (s.onConnectFinish fd conn answers) (s.onRW fd r true answers) fd
      conn.serviceId := by
    unfold onRW
    rw [managed]
    simp only [connecting, if_true]
    exact readEvent_tells serves
  have ends : (s.onConnectFinish fd conn answers).conns fd = none →
      s.onRW fd r true answers = s.onConnectFinish fd conn answers := by
    intro none
    unfold onRW
    rw [managed]
    simp only [connecting, if_true, none]
  obtain ⟨new, posted', reports⟩ := reads.posted
  refine ⟨m, new, by rw [posted', posted, List.append_assoc]; rfl, here, answer, reports,
    fun failed => ?_, fun conn' managed' => ?_⟩
  · have none := gone.resolve_left failed
    rw [ends none] at posted' ⊢
    exact ⟨List.self_eq_append_right.mp posted', none⟩
  · obtain ⟨conn₁, managed₁, service, same⟩ := reads.conns conn' managed'
    obtain ⟨service₁, done⟩ := finished conn₁ managed₁
    exact ⟨service.trans service₁, same.trans done⟩

end SocketServer

end Starnet
