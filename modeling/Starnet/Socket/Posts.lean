import Starnet.Socket.Slot

/-! What the engine posts while it works on connections that it has. No call or event but `accept`
posts an `ACCEPT`, and `DATA` goes to the service of a connection that the engine manages. -/

namespace Starnet

namespace SocketServer

/-- `s'` comes from `s` by work on the connections of `s`. -/
structure Works (s s' : SocketServer) : Prop where
  posted : ∃ new, s'.posted = s.posted ++ new ∧ ∀ m ∈ new, m.1.subtype ≠ .accept ∧
    (m.1.subtype = .data → ∃ conn, s.conns m.1.fd = some conn ∧ conn.serviceId = m.2 ∧
      conn.type ≠ .listen)
  conns : ∀ fd conn', s'.conns fd = some conn' → ∃ conn, s.conns fd = some conn ∧
    conn.serviceId = conn'.serviceId ∧ conn.type = conn'.type

/-- The service and the type of a connection. -/
def SameOwner (conn conn' : Conn) : Prop :=
  conn.serviceId = conn'.serviceId ∧ conn.type = conn'.type

namespace Works

variable {s s' s'' : SocketServer} {fd : Int32} {conn : Conn}

/-- Nothing is posted, and the connections are as before. -/
theorem of_eq (posted : s'.posted = s.posted) (conns : s'.conns = s.conns) : Works s s' := by
  refine ⟨⟨[], by rw [posted, List.append_nil], nofun⟩, fun fd conn' managed => ?_⟩
  rw [conns] at managed
  exact ⟨conn', managed, rfl, rfl⟩

theorem refl (s : SocketServer) : Works s s := of_eq rfl rfl

theorem trans (h : Works s s') (h' : Works s' s'') : Works s s'' := by
  obtain ⟨new, posted, fits⟩ := h.posted
  obtain ⟨new', posted', fits'⟩ := h'.posted
  refine ⟨⟨new ++ new', by rw [posted', posted, List.append_assoc], fun m mem => ?_⟩, ?_⟩
  · rcases List.mem_append.mp mem with mem | mem
    · exact fits m mem
    · refine ⟨(fits' m mem).1, fun data => ?_⟩
      obtain ⟨conn', managed', service', type'⟩ := (fits' m mem).2 data
      obtain ⟨conn, managed, service, type⟩ := h.conns _ _ managed'
      exact ⟨conn, managed, service.trans service', by rwa [type]⟩
  · intro fd conn'' managed''
    obtain ⟨conn', managed', service', type'⟩ := h'.conns fd conn'' managed''
    obtain ⟨conn, managed, service, type⟩ := h.conns fd conn' managed'
    exact ⟨conn, managed, service.trans service', type.trans type'⟩

/-- A step that posts nothing and keeps the connections. -/
theorem keep (h : Works s s') (posted : s''.posted = s'.posted) (conns : s''.conns = s'.conns) :
    Works s s'' :=
  h.trans (of_eq posted conns)

theorem setBuffer (h : Works s s') {wb : Option ConnWriteBuffer} : Works s (s'.setBuffer fd wb) :=
  h.keep rfl rfl

theorem close (h : Works s s') : Works s (s'.close fd) := h.keep rfl rfl

theorem removeEvent (h : Works s s') : Works s (s'.removeEvent fd) := h.keep rfl rfl

theorem modifyEvent (h : Works s s') {out : Bool} : Works s (s'.modifyEvent fd out) := h.keep rfl rfl

/-- An assignment to fields of a connection other than its service and its type. -/
theorem setConn (h : Works s s') {conn' : Conn} (managed : s'.conns fd = some conn)
    (same : SameOwner conn conn') : Works s (s'.setConn fd (some conn')) := by
  refine h.trans ⟨⟨[], (List.append_nil _).symm, nofun⟩, fun fd' conn₁ managed₁ => ?_⟩
  by_cases own : fd' = fd
  · subst own
    rw [conns_setConn] at managed₁
    cases managed₁
    exact ⟨conn, managed, same⟩
  · simp only [SocketServer.setConn, Function.update_of_ne own] at managed₁
    exact ⟨conn₁, managed₁, rfl, rfl⟩

theorem removeConn (h : Works s s') : Works s (s'.removeConn fd) := by
  refine h.trans ⟨⟨[], (List.append_nil _).symm, nofun⟩, fun fd' conn' managed => ?_⟩
  have conns : (s'.removeConn fd).conns = Function.update s'.conns fd none := rfl
  rw [conns] at managed
  by_cases own : fd' = fd
  · rw [own, Function.update_self] at managed
    cases managed
  · rw [Function.update_of_ne own] at managed
    exact ⟨conn', managed, rfl, rfl⟩

theorem modConn (h : Works s s') {f : Conn → Conn} (same : ∀ conn, SameOwner conn (f conn)) :
    Works s (s'.modConn fd f) := by
  rcases managed : s'.conns fd with _ | conn
  · refine h.keep rfl ?_
    rw [SocketServer.modConn, managed, Option.map_none, SocketServer.setConn, ← managed,
      Function.update_eq_self]
  · rw [SocketServer.modConn, managed, Option.map_some]
    exact h.setConn managed (same conn)

/-- A message that is neither `ACCEPT` nor `DATA`. -/
theorem post (h : Works s s') {m : SocketMsg} {serviceId : UInt32} (accept : m.subtype ≠ .accept)
    (data : m.subtype ≠ .data) : Works s (s'.post m serviceId) := by
  refine h.trans ⟨⟨[(m, serviceId)], rfl, fun m' mem => ?_⟩,
    fun fd conn managed => ⟨conn, managed, rfl, rfl⟩⟩
  rw [List.mem_singleton.mp mem]
  exact ⟨accept, fun isData => absurd isData data⟩

theorem postData (h : Works s s') {m : SocketMsg} (data : m.subtype = .data)
    (managed : s'.conns m.fd = some conn) (type : conn.type ≠ .listen) :
    Works s (s'.post m conn.serviceId) := by
  refine h.trans ⟨⟨[(m, conn.serviceId)], rfl, fun m' mem => ?_⟩,
    fun fd conn managed => ⟨conn, managed, rfl, rfl⟩⟩
  rw [List.mem_singleton.mp mem]
  exact ⟨by rw [data]; exact nofun, fun _ => ⟨conn, managed, rfl, type⟩⟩

end Works

/-! ### Calls and events -/

variable {s : SocketServer} {fd : Int32} {conn : Conn}

theorem dropConn_works (s : SocketServer) (fd : Int32) : Works s (s.dropConn fd) := by
  rw [dropConn]
  cases s.connHas fd Conn.isBind with
  | true => exact (Works.refl s).removeConn.removeEvent
  | false => exact (Works.refl s).removeConn.close.removeEvent

theorem lingerClose_works (s : SocketServer) (fd : Int32) : Works s (s.lingerClose fd) := by
  unfold lingerClose
  split
  · exact dropConn_works s fd
  · split
    · exact .refl s
    · dsimp only
      split
      · exact (Works.refl s).setBuffer
      · exact (Works.refl s).setBuffer.trans (dropConn_works ..)

theorem closeConn_works (s : SocketServer) (fd : Int32) : Works s (s.closeConn fd) := by
  have removed : Works s (s.removeConn fd) := (Works.refl s).removeConn
  rw [closeConn]
  cases s.connHas fd Conn.isBind <;> cases (s.conns fd).isSome
  · exact removed.close
  · exact removed.close.removeEvent
  · exact removed
  · exact removed.removeEvent

theorem notifyClose_works (s : SocketServer) (fd : Int32) (conn : Conn) :
    Works s (s.notifyClose fd conn) := by
  have posted : Works s (s.post (socketMsg .close fd) conn.serviceId) :=
    (Works.refl s).post (by nofun) (by nofun)
  rw [notifyClose]
  cases conn.isBind with
  | true => exact posted.removeConn.removeEvent
  | false => exact posted.removeConn.close.removeEvent

theorem setPaused_works (s : SocketServer) (fd : Int32) (paused : Bool) :
    Works s (s.setPaused fd paused).2 := by
  unfold setPaused
  split
  · exact .refl s
  · have marked : Works s (s.modConn fd fun conn => { conn with paused }) :=
      (Works.refl s).modConn fun _ => ⟨rfl, rfl⟩
    exact marked.modifyEvent

theorem sendBuffer_works (s : SocketServer) (fd : Int32) (buff : List UInt8) (low : Bool)
    (writes : List WriteOutcome) : Works s (s.sendBuffer fd buff low writes).2 := by
  unfold sendBuffer
  split
  · exact .refl s
  · rename_i conn managed
    dsimp only
    split
    · exact .refl s
    · generalize ((s.writeBuffers fd).getD {}).send ⟨conn.sent.length, low, buff⟩
        ⟨writes, conn.calls⟩ = sent
      have queued : Works s ((s.setBuffer fd (some sent.1.warn.1)).setConn fd (some { conn with
          sent := conn.sent ++ [⟨conn.sent.length, low, buff⟩], calls := sent.2.2.calls })) :=
        (Works.refl s).setBuffer.setConn managed ⟨rfl, rfl⟩
      cases sent.2.1 <;> cases sent.1.warn.2
      · exact queued
      · exact queued.post (by nofun) (by nofun)
      · exact queued.modifyEvent
      · exact queued.modifyEvent.post (by nofun) (by nofun)

theorem onWriteable_works (s : SocketServer) (fd : Int32) (writes : List WriteOutcome) :
    Works s (s.onWriteable fd writes) := by
  unfold onWriteable
  split
  · exact .refl s
  · rename_i conn managed
    have flushed : Works s (s.flushWriteable fd conn writes).2.2 := by
      unfold flushWriteable
      split
      · exact .refl s
      · exact (Works.refl s).setBuffer.setConn managed ⟨rfl, rfl⟩
    rcases eq : s.flushWriteable fd conn writes with ⟨emptied, needNotify, t⟩
    rw [eq] at flushed
    show Works s (t.finishWriteable fd conn emptied needNotify)
    unfold finishWriteable
    split
    · have shut : Works s (t.shutdownRead fd) := flushed.keep rfl rfl
      exact shut.post (by nofun) (by nofun)
    · split
      · exact flushed.modifyEvent
      · exact flushed

theorem onConnectFinish_works (s : SocketServer) (fd : Int32) (conn : Conn) (answers : Answers) :
    Works s (s.onConnectFinish fd conn answers) := by
  unfold onConnectFinish
  split
  · exact ((Works.refl s).post (by nofun) (by nofun)).removeConn.close.removeEvent
  · have finished : Works s (s.modConn fd fun conn => { conn with connecting := false }) :=
      (Works.refl s).modConn fun _ => ⟨rfl, rfl⟩
    exact finished.modifyEvent.post (by nofun) (by nofun)

theorem readUdp_works (s : SocketServer) (fd : Int32) (serviceId : UInt32)
    (outcomes : List RecvOutcome) : Works s (s.readUdp fd serviceId outcomes) := by
  induction outcomes generalizing s with
  | nil =>
    rw [readUdp]
    · exact .refl s
    · exact nofun
  | cons outcome outcomes ih =>
    cases outcome with
    | datagram payload udpAddr =>
      rw [readUdp]
      dsimp only
      split
      · exact ((Works.refl s).post (by nofun) (by nofun)).trans (ih _)
      · exact .refl s
    | eagain | eintr | error =>
      rw [readUdp]
      · exact .refl s
      · exact nofun

theorem growBuffer_same (conn : Conn) : SameOwner conn (growBuffer conn) := by
  obtain ⟨cap, grows⟩ := growBuffer_eq conn
  rw [grows]
  exact ⟨rfl, rfl⟩

theorem adaptReadSize_same (conn : Conn) (len : Nat) : SameOwner conn (adaptReadSize conn len) := by
  obtain ⟨size, adapts⟩ := adaptReadSize_eq conn len
  rw [adapts]
  exact ⟨rfl, rfl⟩

theorem readRound_works (outcome : ReadOutcome)
    (type : ∀ conn, s.conns fd = some conn → conn.type ≠ .listen) :
    Works s (s.readRound fd outcome).2 := by
  unfold readRound
  split
  · exact .refl s
  · rename_i conn managed
    have grown : Works s (s.setConn fd (some (growBuffer conn))) :=
      (Works.refl s).setConn managed (growBuffer_same conn)
    have managed' : (s.setConn fd (some (growBuffer conn))).conns fd = some (growBuffer conn) :=
      conns_setConn ..
    have type' : (growBuffer conn).type ≠ .listen := (growBuffer_same conn).2 ▸ type conn managed
    cases outcome with
    | data bytes =>
      dsimp only
      split
      · exact (grown.postData rfl managed' type').setConn managed' (adaptReadSize_same ..)
      · exact grown.trans (notifyClose_works ..)
    | eof | error => exact grown.trans (notifyClose_works ..)
    | eagain | eintr => exact grown

theorem readData_works (outcomes : List ReadOutcome)
    (type : ∀ conn, s.conns fd = some conn → conn.type ≠ .listen) :
    Works s (s.readData fd outcomes) := by
  induction outcomes generalizing s with
  | nil => exact readRound_works _ type
  | cons outcome outcomes ih =>
    have round : Works s (s.readRound fd outcome).2 := readRound_works outcome type
    unfold readData
    split
    · rename_i t eq
      rw [eq] at round
      refine round.trans (ih fun conn' managed' => ?_)
      obtain ⟨conn, managed, -, same⟩ := round.conns fd conn' managed'
      rw [← same]
      exact type conn managed
    · rename_i t eq
      rw [eq] at round
      exact round

theorem onRW_works {r w : Bool} {answers : Answers}
    (type : ∀ conn, s.conns fd = some conn → conn.type ≠ .listen) :
    Works s (s.onRW fd r w answers) := by
  unfold onRW
  extract_lets t
  have first : Works s t := by
    unfold t
    split
    · split
      · split
        · exact onConnectFinish_works ..
        · exact onWriteable_works ..
      · exact .refl s
    · exact .refl s
  have type' : ∀ conn, t.conns fd = some conn → conn.type ≠ .listen := by
    intro conn' managed'
    obtain ⟨conn, managed, -, same⟩ := first.conns fd conn' managed'
    rw [← same]
    exact type conn managed
  split
  · split
    · split
      · exact first.trans (readUdp_works ..)
      · exact first.trans (readData_works _ type')
    · exact first
  · exact first

end SocketServer

end Starnet
