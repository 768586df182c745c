import Starnet.Socket.Slot

/-! Which descriptors the engine closes. A descriptor that code outside the engine opened and gave
to `Bind` is not the engine's to close. `CloseConn` and `LingerClose` take a descriptor that is not
in `conns` for one of their own, so that they close it also when `NotifyClose` has just given a
bound one back. -/

namespace Starnet

/-- What `socket` and `connect` do for one address of `Connect`. -/
inductive Attempt
  | noSocket
  | refused (fd : Int32)
  | inProgress (fd : Int32)
  | connected (fd : Int32) (ip : List UInt8)
  deriving DecidableEq, Repr

namespace Attempt

/-- The descriptor that `socket` gives. -/
def fd : Attempt → Option Int32
  | noSocket => none
  | refused fd | inProgress fd | connected fd _ => some fd

/-- The descriptor that `Connect` returns, if it succeeds. -/
def opened : List Attempt → Option Int32
  | noSocket :: rest | refused _ :: rest => opened rest
  | inProgress fd :: _ | connected fd _ :: _ => some fd
  | [] => none

/-- The sockets that `Connect` closes on its way through the addresses. -/
def refusals : List Attempt → List Int32
  | noSocket :: rest => refusals rest
  | refused fd :: rest => fd :: refusals rest
  | _ => []

end Attempt

namespace SocketServer

/-- `Connect` on the addresses that `getaddrinfo` gives: the result and the engine after the call.
-/
def connectTo (s : SocketServer) (serviceId : UInt32) : List Attempt → Int32 × SocketServer
  | [] => (-1, s)
  | .noSocket :: rest => s.connectTo serviceId rest
  | .refused fd :: rest => ((s.setSocket fd (some {})).close fd).connectTo serviceId rest
  | .inProgress fd :: _ => (fd, s.connect fd serviceId none)
  | .connected fd ip :: _ => (fd, s.connect fd serviceId (some ip))

end SocketServer

/-- A call of `close`: what `conns` holds for the descriptor when the operation starts, and whether
code outside the engine has opened the descriptor. -/
structure CloseCall where
  fd : Int32
  conn : Option Conn
  external : Bool
  deriving DecidableEq, Repr

/-- The engine, with the descriptors that code outside it has opened and the calls of `close`. -/
structure Owners where
  server : SocketServer
  external : Int32 → Bool
  closed : List CloseCall

/-- A call or an event of the engine, `Connect` with its addresses, or the close of a descriptor by
its external owner. -/
inductive OwnerOp
  | engine (op : SocketOp)
  | connectTo (serviceId : UInt32) (attempts : List Attempt)
  | release (fd : Int32)
  deriving DecidableEq, Repr

/-- The descriptors that an operation of the engine opens: outside the engine, or in it. -/
def SocketOp.opens : SocketOp → Option (Int32 × Bool)
  | openFd fd => some (fd, true)
  | listen fd _ | accept _ fd | connect fd _ _ => some (fd, false)
  | _ => none

namespace Owners

/-- The engine does an operation that leaves it as `server`. -/
def become (o : Owners) (server : SocketServer) (opens : Option (Int32 × Bool)) : Owners where
  server := server
  external := opens.elim o.external fun (fd, external) => Function.update o.external fd external
  closed := o.closed ++ (server.closes.drop o.server.closes.length).map fun fd =>
    ⟨fd, o.server.conns fd, o.external fd⟩

/-- The steps of the engine. The owner of a descriptor closes it only when the engine does not
manage it. -/
inductive Step : Owners → OwnerOp → Owners → Prop
  | engine {o : Owners} {op server} (step : o.server.Step op server) :
      Step o (.engine op) (o.become server op.opens)
  | connectTo {o : Owners} {serviceId attempts}
      (free : ∀ attempt ∈ attempts, ∀ fd, attempt.fd = some fd → o.server.sockets fd = none) :
      Step o (.connectTo serviceId attempts)
        (o.become (o.server.connectTo serviceId attempts).2
          ((Attempt.opened attempts).map (·, false)))
  | release {o : Owners} {fd} (own : o.external fd = true) (unmanaged : o.server.conns fd = none) :
      Step o (.release fd) (o.become (o.server.setSocket fd none) none)

/-- Every call of `close` is on a descriptor that was managed and not bound when its operation
started, and that the engine itself has opened. -/
def ClosesOwned (o : Owners) : Prop :=
  ∀ call ∈ o.closed, (∃ conn, call.conn = some conn ∧ conn.isBind = false) ∧ call.external = false

/-- `CloseConn` and `LingerClose` are called for a managed descriptor, and no address of `Connect`
is refused at once. -/
def OnManaged (o : Owners) : OwnerOp → Prop
  | .engine (.closeConn fd) | .engine (.lingerClose fd) => (o.server.conns fd).isSome = true
  | .connectTo _ attempts => Attempt.refusals attempts = []
  | _ => True

end Owners

/-- The engine from its start. -/
def owners : Transition.System Owners OwnerOp where
  init o := o = ⟨.initial, fun _ => false, []⟩
  step := Owners.Step

/-! ### What an operation closes -/

namespace SocketServer

variable {s s' s'' : SocketServer} {fd : Int32} {conn conn' : Conn}

@[simp] theorem closes_setConn (c : Option Conn) : (s.setConn fd c).closes = s.closes := rfl

@[simp] theorem closes_setBuffer (wb : Option ConnWriteBuffer) :
    (s.setBuffer fd wb).closes = s.closes := rfl

@[simp] theorem closes_setSocket (k : Option Socket) : (s.setSocket fd k).closes = s.closes := rfl

@[simp] theorem closes_post (msg : SocketMsg) (serviceId : UInt32) :
    (s.post msg serviceId).closes = s.closes := rfl

@[simp] theorem closes_close : (s.close fd).closes = s.closes ++ [fd] := rfl

@[simp] theorem closes_removeConn : (s.removeConn fd).closes = s.closes := rfl

@[simp] theorem closes_modifyEvent (out : Bool) : (s.modifyEvent fd out).closes = s.closes := rfl

@[simp] theorem closes_removeEvent : (s.removeEvent fd).closes = s.closes := rfl

@[simp] theorem conns_close : (s.close fd).conns = s.conns := rfl

@[simp] theorem conns_removeConn : (s.removeConn fd).conns fd = none := conns_setConn s fd none

@[simp] theorem conns_removeEvent : (s.removeEvent fd).conns = s.conns := rfl

@[simp] theorem conns_modifyEvent (out : Bool) : (s.modifyEvent fd out).conns = s.conns := rfl

@[simp] theorem sockets_close : (s.close fd).sockets fd = none := sockets_setSocket s fd none

@[simp] theorem sockets_removeConn : (s.removeConn fd).sockets = s.sockets := rfl

@[simp] theorem sockets_removeEvent :
    (s.removeEvent fd).sockets fd = (s.sockets fd).map fun k => { k with events := none } :=
  sockets_setSocket s fd _

@[simp] theorem sockets_modifyEvent (out : Bool) : (s.modifyEvent fd out).sockets fd =
    (s.sockets fd).map (Slot.rearm (s.connHas fd Conn.paused) out) :=
  sockets_setSocket s fd _

/-- Work on a descriptor that closes nothing. -/
structure Keeps (s s' : SocketServer) (fd : Int32) : Prop where
  closes : s'.closes = s.closes
  bound : (s'.conns fd).map Conn.isBind = (s.conns fd).map Conn.isBind
  connecting : s'.connHas fd Conn.connecting = true → s.connHas fd Conn.connecting = true
  socket : (s'.sockets fd).isSome = (s.sockets fd).isSome

namespace Keeps

theorem refl (s : SocketServer) (fd : Int32) : Keeps s s fd := ⟨rfl, rfl, id, rfl⟩

theorem trans (k : Keeps s s' fd) (k' : Keeps s' s'' fd) : Keeps s s'' fd :=
  ⟨k'.closes.trans k.closes, k'.bound.trans k.bound, fun h => k.connecting (k'.connecting h),
    k'.socket.trans k.socket⟩

/-- An assignment to other fields of the connection. -/
theorem assign (managed : s.conns fd = some conn) (managed' : s'.conns fd = some conn')
    (bound : conn'.isBind = conn.isBind)
    (connecting : conn'.connecting = true → conn.connecting = true) (closes : s'.closes = s.closes)
    (socket : (s'.sockets fd).isSome = (s.sockets fd).isSome) : Keeps s s' fd := by
  refine ⟨closes, ?_, ?_, socket⟩
  · rw [managed, managed', Option.map_some, Option.map_some, bound]
  · rw [connHas_eq managed, connHas_eq managed']
    exact connecting

end Keeps

/-- What work on a connection closes, and what it leaves of the descriptor. -/
inductive Handles (s s' : SocketServer) (fd : Int32) : Prop
  | keep (k : Keeps s s' fd)
  | close (own : (s.conns fd).map Conn.isBind = some false) (closes : s'.closes = s.closes ++ [fd])
      (gone : s'.conns fd = none) (socket : s'.sockets fd = none)
  | giveBack (bound : (s.conns fd).map Conn.isBind = some true) (closes : s'.closes = s.closes)
      (gone : s'.conns fd = none) (socket : (s'.sockets fd).isSome = (s.sockets fd).isSome)

namespace Handles

theorem refl (s : SocketServer) (fd : Int32) : Handles s s fd := .keep (.refl s fd)

theorem after (k : Keeps s s' fd) (h : Handles s' s'' fd) : Handles s s'' fd := by
  cases h with
  | keep k' => exact .keep (k.trans k')
  | close own closes gone socket =>
    exact .close (k.bound ▸ own) (by rw [closes, k.closes]) gone socket
  | giveBack bound closes gone socket =>
    exact .giveBack (k.bound ▸ bound) (closes.trans k.closes) gone (socket.trans k.socket)

/-- `close` unless the descriptor is bound. -/
theorem leave (managed : s.conns fd = some conn) (bound : conn.isBind = true →
      s'.closes = s.closes ∧ s'.conns fd = none ∧ (s'.sockets fd).isSome = (s.sockets fd).isSome)
    (own : conn.isBind = false →
      s'.closes = s.closes ++ [fd] ∧ s'.conns fd = none ∧ s'.sockets fd = none) :
    Handles s s' fd := by
  cases isBind : conn.isBind with
  | true =>
    obtain ⟨closes, gone, socket⟩ := bound isBind
    exact .giveBack (by rw [managed, Option.map_some, isBind]) closes gone socket
  | false =>
    obtain ⟨closes, gone, socket⟩ := own isBind
    exact .close (by rw [managed, Option.map_some, isBind]) closes gone socket

end Handles

theorem dropConn_handles (managed : s.conns fd = some conn) : Handles s (s.dropConn fd) fd := by
  refine .leave managed (fun bound => ?_) fun own => ?_
  · simp [dropConn, connHas_eq managed, bound]
  · simp [dropConn, connHas_eq managed, own]

/-- Without an entry in `conns` the descriptor is closed all the same. -/
theorem dropConn_unmanaged (unmanaged : s.conns fd = none) :
    (s.dropConn fd).closes = s.closes ++ [fd] := by
  have bound : s.connHas fd Conn.isBind = false := by rw [connHas, unmanaged]; rfl
  simp [dropConn, bound]

theorem lingerClose_handles (managed : s.conns fd = some conn) :
    Handles s (s.lingerClose fd) fd := by
  unfold lingerClose
  split
  · exact dropConn_handles managed
  · split
    · exact .refl s fd
    · rename_i wb buffer open_
      have marked : Keeps s (s.setBuffer fd (some { wb with isClosing := true })) fd :=
        ⟨rfl, rfl, id, rfl⟩
      dsimp only
      split
      · exact .keep marked
      · exact .after marked (dropConn_handles managed)

theorem closeConn_handles (managed : s.conns fd = some conn) : Handles s (s.closeConn fd) fd := by
  refine .leave managed (fun bound => ?_) fun own => ?_
  · simp [closeConn, connHas_eq managed, managed, bound]
  · simp [closeConn, connHas_eq managed, managed, own]

theorem closeConn_unmanaged (unmanaged : s.conns fd = none) :
    (s.closeConn fd).closes = s.closes ++ [fd] := by
  have bound : s.connHas fd Conn.isBind = false := by rw [connHas, unmanaged]; rfl
  simp [closeConn, bound, unmanaged]

theorem notifyClose_handles (managed : s.conns fd = some conn) :
    Handles s (s.notifyClose fd conn) fd := by
  refine .leave managed (fun bound => ?_) fun own => ?_
  · simp [notifyClose, bound]
  · simp [notifyClose, own]

theorem setPaused_keeps (s : SocketServer) (fd : Int32) (paused : Bool) :
    Keeps s (s.setPaused fd paused).2 fd := by
  unfold setPaused
  split
  · exact .refl s fd
  · rename_i conn managed
    have marked : (s.modConn fd fun conn => { conn with paused }).conns fd =
        some { conn with paused } := by simp [modConn, managed]
    refine .assign managed marked rfl id rfl ?_
    simp [modConn]

theorem sendBuffer_keeps (s : SocketServer) (fd : Int32) (buff : List UInt8) (low : Bool)
    (writes : List WriteOutcome) : Keeps s (s.sendBuffer fd buff low writes).2 fd := by
  unfold sendBuffer
  split
  · exact .refl s fd
  · rename_i conn managed
    dsimp only
    split
    · exact .refl s fd
    · generalize ((s.writeBuffers fd).getD {}).send ⟨conn.sent.length, low, buff⟩
        ⟨writes, conn.calls⟩ = sent
      have queued : Keeps s ((s.setBuffer fd (some sent.1.warn.1)).setConn fd (some { conn with
          sent := conn.sent ++ [⟨conn.sent.length, low, buff⟩], calls := sent.2.2.calls })) fd :=
        .assign managed (conns_setConn ..) rfl id rfl rfl
      refine queued.trans ?_
      cases sent.2.1 <;> cases sent.1.warn.2 <;> exact ⟨rfl, rfl, id, by simp⟩

theorem onWriteable_keeps (s : SocketServer) (fd : Int32) (writes : List WriteOutcome) :
    Keeps s (s.onWriteable fd writes) fd := by
  unfold onWriteable
  split
  · exact .refl s fd
  · rename_i conn managed
    rcases eq : s.flushWriteable fd conn writes with ⟨emptied, needNotify, s'⟩
    have flushed : Keeps s s' fd := by
      unfold flushWriteable at eq
      split at eq
      · cases eq
        exact .refl s fd
      · cases eq
        exact .assign managed (conns_setConn ..) rfl id rfl rfl
    refine flushed.trans ?_
    dsimp only [finishWriteable]
    split
    · exact ⟨rfl, rfl, id, by simp [shutdownRead]⟩
    · split
      · exact ⟨rfl, rfl, id, by simp⟩
      · exact .refl s' fd

theorem onConnectFinish_handles (answers : Answers) (managed : s.conns fd = some conn)
    (own : conn.isBind = false) : Handles s (s.onConnectFinish fd conn answers) fd := by
  unfold onConnectFinish
  split
  · exact .close (by rw [managed, Option.map_some, own]) rfl (by simp) (by simp)
  · have finished : (s.modConn fd fun conn => { conn with connecting := false }).conns fd =
        some { conn with connecting := false } := by simp [modConn, managed]
    refine .keep (.assign managed finished rfl (by rintro ⟨⟩) rfl ?_)
    simp [modConn]

/-- A round that another one follows closes nothing. -/
theorem readRound_handles (s : SocketServer) (fd : Int32) (outcome : ReadOutcome) :
    Handles s (s.readRound fd outcome).2 fd ∧
      ((s.readRound fd outcome).1 = true → Keeps s (s.readRound fd outcome).2 fd) := by
  unfold readRound
  split
  · exact ⟨.refl s fd, nofun⟩
  · rename_i conn managed
    obtain ⟨cap, grows⟩ := growBuffer_eq conn
    have bound : (growBuffer conn).isBind = conn.isBind := by rw [grows]
    have connecting : (growBuffer conn).connecting = conn.connecting := by rw [grows]
    have grown : (s.setConn fd (some (growBuffer conn))).conns fd = some (growBuffer conn) :=
      conns_setConn ..
    have kept : Keeps s (s.setConn fd (some (growBuffer conn))) fd :=
      .assign managed grown bound (connecting ▸ id) rfl rfl
    have closed := Handles.after kept (notifyClose_handles grown)
    cases outcome with
    | data bytes =>
      dsimp only
      split
      · obtain ⟨size, adapts⟩ := adaptReadSize_eq (growBuffer conn)
          (bytes.take (growBuffer conn).readSize).length
        have adapted : Keeps s (((s.setConn fd (some (growBuffer conn))).post
            { socketMsg .data fd with buff := bytes.take (growBuffer conn).readSize }
            (growBuffer conn).serviceId).setConn fd (some (adaptReadSize (growBuffer conn)
            (bytes.take (growBuffer conn).readSize).length))) fd :=
          .assign managed (conns_setConn ..) (by rw [adapts]; exact bound)
            (by rw [adapts]; exact connecting ▸ id) rfl rfl
        exact ⟨.keep adapted, fun _ => adapted⟩
      · exact ⟨closed, nofun⟩
    | eof | error => exact ⟨closed, nofun⟩
    | eagain | eintr => exact ⟨.keep kept, nofun⟩

theorem readData_handles (s : SocketServer) (fd : Int32) (outcomes : List ReadOutcome) :
    Handles s (s.readData fd outcomes) fd := by
  induction outcomes generalizing s with
  | nil => exact (readRound_handles s fd .eagain).1
  | cons outcome outcomes ih =>
    obtain ⟨handles, keeps⟩ := readRound_handles s fd outcome
    unfold readData
    split
    · rename_i s' more
      rw [more] at keeps
      exact .after (keeps rfl) (ih s')
    · rename_i s' last
      rw [last] at handles
      exact handles

theorem readUdp_keeps (s : SocketServer) (fd fd' : Int32) (serviceId : UInt32)
    (outcomes : List RecvOutcome) : Keeps s (s.readUdp fd' serviceId outcomes) fd := by
  fun_induction readUdp s fd' serviceId outcomes with
  | case1 s payload udpAddr outcomes buff h ih =>
    refine .trans ?_ ih
    exact ⟨rfl, rfl, id, rfl⟩
  | case2 => exact .refl ..
  | case3 => exact .refl ..

/-- A connection that is being made is not a bound one. -/
def Makes (s : SocketServer) (fd : Int32) : Prop :=
  ∀ conn, s.conns fd = some conn → conn.connecting = true → conn.isBind = false

theorem onRW_handles (makes : s.Makes fd) (r w : Bool) (answers : Answers) :
    Handles s (s.onRW fd r w answers) fd := by
  unfold onRW
  extract_lets t
  have first : Handles s t fd := by
    unfold t
    split
    · rename_i conn managed
      split
      · split
        · rename_i connecting
          exact onConnectFinish_handles answers managed (makes conn managed connecting)
        · exact .keep (onWriteable_keeps ..)
      · exact .refl s fd
    · exact .refl s fd
  split
  · rename_i conn managed
    cases first with
    | keep k =>
      split
      · split
        · exact .after k (.keep (readUdp_keeps ..))
        · exact .after k (readData_handles ..)
      · exact .keep k
    | close own closes gone socket => cases gone.symm.trans managed
    | giveBack bound closes gone socket => cases gone.symm.trans managed
  · exact first

/-! ### The owners of the descriptors -/

/-- A managed descriptor is bound when code outside the engine has opened it, and one that is open
and not managed was opened outside. -/
structure Owned (s : SocketServer) (external : Bool) (fd : Int32) : Prop where
  managed : (s.slot fd).Managed
  bound : ∀ conn, s.conns fd = some conn → conn.isBind = external
  makes : s.Makes fd
  unmanaged : s.conns fd = none → (s.sockets fd).isSome = true → external = true

namespace Owned

variable {external : Bool}

theorem keeps (o : Owned s external fd) (k : Keeps s s' fd) (managed : (s'.slot fd).Managed) :
    Owned s' external fd := by
  have same : ∀ conn', s'.conns fd = some conn' → ∃ conn, s.conns fd = some conn ∧
      conn'.isBind = conn.isBind ∧ (conn'.connecting = true → conn.connecting = true) := by
    intro conn' managed'
    have bound := k.bound
    have connecting := k.connecting
    rw [managed', Option.map_some] at bound
    obtain ⟨conn, managed, eq⟩ := Option.map_eq_some_iff.mp bound.symm
    rw [connHas_eq managed', connHas_eq managed] at connecting
    exact ⟨conn, managed, eq.symm, connecting⟩
  refine ⟨managed, fun conn' managed' => ?_, fun conn' managed' connecting => ?_,
    fun unmanaged opened => ?_⟩
  · obtain ⟨conn, managed, bound, -⟩ := same conn' managed'
    exact bound.trans (o.bound conn managed)
  · obtain ⟨conn, managed, bound, before⟩ := same conn' managed'
    exact bound.trans (o.makes conn managed (before connecting))
  · have bound := k.bound
    rw [unmanaged, Option.map_none] at bound
    exact o.unmanaged (Option.map_eq_none_iff.mp bound.symm) (k.socket ▸ opened)

theorem handles (o : Owned s external fd) (h : Handles s s' fd) (managed : (s'.slot fd).Managed) :
    Owned s' external fd := by
  cases h with
  | keep k => exact o.keeps k managed
  | close own closes gone socket =>
    refine ⟨managed, fun conn managed' => ?_, fun conn managed' => ?_, fun _ opened => ?_⟩
    · cases gone.symm.trans managed'
    · cases gone.symm.trans managed'
    · rw [socket] at opened
      cases opened
  | giveBack bound closes gone socket =>
    obtain ⟨conn, managed', eq⟩ := Option.map_eq_some_iff.mp bound
    refine ⟨managed, fun conn managed' => ?_, fun conn managed' => ?_, fun _ _ => ?_⟩
    · cases gone.symm.trans managed'
    · cases gone.symm.trans managed'
    · rw [← o.bound conn managed', eq]

theorem congr (o : Owned s external fd) (slot : s'.slot fd = s.slot fd) : Owned s' external fd := by
  have conns : s'.conns fd = s.conns fd := congrArg Slot.conn slot
  have sockets : s'.sockets fd = s.sockets fd := congrArg Slot.socket slot
  refine ⟨slot ▸ o.managed, ?_, ?_, ?_⟩
  · rw [conns]
    exact o.bound
  · unfold Makes
    rw [conns]
    exact o.makes
  · rw [conns, sockets]
    exact o.unmanaged

theorem free (o : Owned s external fd) (closed : s.sockets fd = none) : s.conns fd = none := by
  by_contra managed
  obtain ⟨k, socket, -⟩ := o.managed.registered (Option.isSome_iff_ne_none.mpr managed)
  rw [slot_socket, closed] at socket
  cases socket

/-- A descriptor that the engine manages from now on. -/
theorem manage (managed : (s'.slot fd).Managed) (new : s'.conns fd = some conn)
    (bound : conn.isBind = external) (makes : conn.connecting = true → conn.isBind = false) :
    Owned s' external fd := by
  refine ⟨managed, fun conn' managed' => ?_, fun conn' managed' connecting => ?_, fun unmanaged => ?_⟩
  · cases new.symm.trans managed'
    exact bound
  · cases new.symm.trans managed'
    exact makes connecting
  · cases new.symm.trans unmanaged

end Owned

/-- A new connection is in `conns`. -/
theorem connect_conns (unmanaged : s.conns fd = none) (serviceId : UInt32)
    (ip : Option (List UInt8)) : ∃ conn, (s.connect fd serviceId ip).conns fd = some conn ∧
      conn.isBind = false := by
  cases ip with
  | some ip =>
    exact ⟨{ type := .client, serviceId, connecting := false }, by
      simp [connect, addConn, unmanaged, modConn, addEvent, epollAdd], rfl⟩
  | none =>
    exact ⟨{ type := .client, serviceId, connecting := true }, by
      simp [connect, addConn, unmanaged, modConn, addEvent, epollAdd], rfl⟩

theorem closes_addConn (conn : Conn) : (s.addConn fd conn).closes = s.closes := by
  unfold addConn
  split <;> rfl

theorem closes_connect (serviceId : UInt32) (ip : Option (List UInt8)) :
    (s.connect fd serviceId ip).closes = s.closes := by
  cases ip <;> exact closes_addConn _

/-- A bound descriptor is one that is open and that the engine does not manage. -/
theorem bind_owned {external : Bool} (o : Owned s external fd) (serviceId : UInt32) (datagram : Bool)
    (managed : ((s.bind fd serviceId datagram).2.slot fd).Managed) :
    Owned (s.bind fd serviceId datagram).2 external fd ∧
      (s.bind fd serviceId datagram).2.closes = s.closes := by
  revert managed
  unfold bind
  split
  · exact fun _ => ⟨o, rfl⟩
  split
  · exact fun _ => ⟨o, rfl⟩
  · rename_i opened unmanaged
    replace opened : (s.sockets fd).isSome = true := by
      rw [Option.isSome_iff_ne_none]
      simpa using opened
    replace unmanaged : s.conns fd = none := by simpa using unmanaged
    have new : (((s.addConn fd { type := if datagram then .udp else .client, serviceId }).modConn fd
        fun conn => { conn with isBind := true }).addEvent fd).conns fd = some
          { type := if datagram then .udp else .client, serviceId, isBind := true } := by
      simp [addConn, unmanaged, modConn, addEvent, epollAdd]
    exact fun managed =>
      ⟨.manage managed new (o.unmanaged unmanaged opened).symm (by rintro ⟨⟩), closes_addConn _⟩

/-- An operation on a managed descriptor closes at most this descriptor, and that only when it is
not bound. -/
theorem step_owned {op : SocketOp} {external : Bool} (step : s.Step op s')
    (o : Owned s external (opFd op)) (managed : (s'.slot (opFd op)).Managed)
    (onManaged : ∀ fd, op = .closeConn fd ∨ op = .lingerClose fd → (s.conns fd).isSome = true) :
    Owned s' ((op.opens.map Prod.snd).getD external) (opFd op) ∧ (s'.closes = s.closes ∨
      s'.closes = s.closes ++ [opFd op] ∧ (s.conns (opFd op)).map Conn.isBind = some false) := by
  have handled : Handles s s' (opFd op) → op.opens = none →
      Owned s' ((op.opens.map Prod.snd).getD external) (opFd op) ∧ (s'.closes = s.closes ∨
        s'.closes = s.closes ++ [opFd op] ∧
          (s.conns (opFd op)).map Conn.isBind = some false) := by
    intro h opens
    rw [opens]
    refine ⟨o.handles h managed, ?_⟩
    cases h with
    | keep k => exact Or.inl k.closes
    | close own closes => exact Or.inr ⟨closes, own⟩
    | giveBack _ closes => exact Or.inl closes
  cases step with
  | @openFd fd free =>
    have unmanaged := o.free free
    refine ⟨⟨managed, fun conn managed' => ?_, fun conn managed' => ?_, fun _ _ => rfl⟩, Or.inl rfl⟩
    · cases unmanaged.symm.trans managed'
    · cases unmanaged.symm.trans managed'
  | @listen fd serviceId free =>
    have unmanaged : s.conns fd = none := o.free free
    have new : (s.listen fd serviceId).conns fd = some { type := .listen, serviceId } := by
      simp [SocketServer.listen, addConn, unmanaged, addEvent, epollAdd]
    exact ⟨.manage managed new rfl (by rintro ⟨⟩), Or.inl (closes_addConn _)⟩
  | @accept listenFd fd conn listener type free =>
    have unmanaged : s.conns fd = none := o.free free
    have new : (s.onAccept listenFd fd conn.serviceId).conns fd =
        some { type := .client, serviceId := conn.serviceId } := by
      simp [onAccept, addConn, unmanaged, epollAdd]
    exact ⟨.manage managed new rfl (by rintro ⟨⟩), Or.inl (closes_addConn _)⟩
  | @connect fd serviceId ip free =>
    obtain ⟨conn, new, own⟩ := connect_conns (o.free free) serviceId ip
    exact ⟨.manage managed new own fun _ => own, Or.inl (closes_connect serviceId ip)⟩
  | bind fd serviceId datagram =>
    obtain ⟨owned, closes⟩ := bind_owned o serviceId datagram managed
    exact ⟨owned, Or.inl closes⟩
  | sendBuffer fd buff low writes => exact handled (.keep (sendBuffer_keeps ..)) rfl
  | onRW _ _ => exact handled (onRW_handles o.makes ..) rfl
  | pauseRead fd => exact handled (.keep (setPaused_keeps ..)) rfl
  | resumeRead fd => exact handled (.keep (setPaused_keeps ..)) rfl
  | lingerClose fd =>
    obtain ⟨conn, managed'⟩ := Option.isSome_iff_exists.mp (onManaged fd (Or.inr rfl))
    exact handled (lingerClose_handles managed') rfl
  | closeConn fd =>
    obtain ⟨conn, managed'⟩ := Option.isSome_iff_exists.mp (onManaged fd (Or.inl rfl))
    exact handled (closeConn_handles managed') rfl

/-! ### Connecting -/

/-- A socket that is closed at once leaves only the call. -/
theorem refused_close (free : s.sockets fd = none) :
    (s.setSocket fd (some {})).close fd = { s with closes := s.closes ++ [fd] } := by
  simp only [close, setSocket, Function.update_idem]
  rw [← free, Function.update_eq_self]

/-- `Connect` closes the refused sockets, and connects on the one that it opens last. -/
theorem connectTo_cases (s : SocketServer) (serviceId : UInt32) (attempts : List Attempt)
    (free : ∀ attempt ∈ attempts, ∀ fd, attempt.fd = some fd → s.sockets fd = none) :
    let t := { s with closes := s.closes ++ Attempt.refusals attempts }
    ((s.connectTo serviceId attempts).2 = t ∧ Attempt.opened attempts = none) ∨
      ∃ fd ip, (s.connectTo serviceId attempts).2 = t.connect fd serviceId ip ∧
        Attempt.opened attempts = some fd ∧ s.sockets fd = none := by
  induction attempts generalizing s with
  | nil => exact Or.inl ⟨by simp [connectTo, Attempt.refusals], rfl⟩
  | cons attempt rest ih =>
    have tail : ∀ attempt ∈ rest, ∀ fd, attempt.fd = some fd → s.sockets fd = none :=
      fun attempt mem => free attempt (List.mem_cons_of_mem _ mem)
    have head := free attempt List.mem_cons_self
    cases attempt with
    | noSocket => exact ih s tail
    | refused fd =>
      have next := ih { s with closes := s.closes ++ [fd] } tail
      simp only [List.append_assoc, List.singleton_append] at next
      simpa only [connectTo, refused_close (head fd rfl), Attempt.refusals, Attempt.opened] using next
    | inProgress fd =>
      exact Or.inr ⟨fd, none, by simp [connectTo, Attempt.refusals], rfl, head fd rfl⟩
    | connected fd ip =>
      exact Or.inr ⟨fd, some ip, by simp [connectTo, Attempt.refusals], rfl, head fd rfl⟩

end SocketServer

namespace Owners

open SocketServer (opFd Owned)

variable {o o' : Owners} {op : OwnerOp} {server : SocketServer}

/-- The owners of the open descriptors are known. -/
def Known (o : Owners) : Prop := ∀ fd, Owned o.server (o.external fd) fd

theorem become_external {opens : Option (Int32 × Bool)} (fd₀ : Int32)
    (own : ∀ fd external, opens = some (fd, external) → fd = fd₀) :
    (o.become server opens).external =
      Function.update o.external fd₀ ((opens.map Prod.snd).getD (o.external fd₀)) := by
  cases opens with
  | none => exact (Function.update_eq_self ..).symm
  | some opened => rw [← own opened.1 opened.2 rfl]; rfl

theorem become_closed {fds : List Int32} {opens : Option (Int32 × Bool)}
    (closes : server.closes = o.server.closes ++ fds) : (o.become server opens).closed =
      o.closed ++ fds.map fun fd => ⟨fd, o.server.conns fd, o.external fd⟩ := by
  rw [become, closes, List.drop_left]

theorem become_closed_same {opens : Option (Int32 × Bool)} (closes : server.closes = o.server.closes) :
    (o.become server opens).closed = o.closed := by
  rw [become_closed (closes.trans (List.append_nil _).symm), List.map_nil, List.append_nil]

/-- The owners stay known when they are known of the descriptor of the operation. -/
theorem Known.become {opens : Option (Int32 × Bool)} (fd₀ : Int32) (known : o.Known)
    (own : ∀ fd external, opens = some (fd, external) → fd = fd₀)
    (here : Owned server ((opens.map Prod.snd).getD (o.external fd₀)) fd₀)
    (others : ∀ fd, fd ≠ fd₀ → server.slot fd = o.server.slot fd) :
    (o.become server opens).Known := by
  intro fd
  rw [become_external fd₀ own]
  by_cases same : fd = fd₀
  · subst same
    rw [Function.update_self]
    exact here
  · rw [Function.update_of_ne same]
    exact (known fd).congr (others fd same)

theorem opens_opFd (op : SocketOp) (fd : Int32) (external : Bool)
    (opens : op.opens = some (fd, external)) : fd = opFd op := by
  cases op <;> cases opens <;> rfl

/-- A step of the engine on a managed descriptor. -/
theorem Known.engine {op : SocketOp} (known : o.Known) (step : o.server.Step op server)
    (onManaged : ∀ fd, op = .closeConn fd ∨ op = .lingerClose fd →
      (o.server.conns fd).isSome = true) :
    (o.become server op.opens).Known ∧ (server.closes = o.server.closes ∨
      server.closes = o.server.closes ++ [opFd op] ∧
        (o.server.conns (opFd op)).map Conn.isBind = some false) := by
  have managed : ∀ fd, (server.slot fd).Managed := fun fd =>
    (SocketServer.step_slots (P := fun _ => True) (I := fun _ => True) step
      (fun _ _ _ _ _ => trivial) (fun _ => trivial) (fun fd => ⟨(known fd).managed, trivial⟩) fd).1
  obtain ⟨owned, closes⟩ :=
    SocketServer.step_owned step (known (opFd op)) (managed (opFd op)) onManaged
  exact ⟨known.become _ (opens_opFd op) owned fun _ ne => SocketServer.step_other step ne, closes⟩

/-- `Connect` with the sockets that it closes on its way. -/
theorem Known.connectTo (serviceId : UInt32) {attempts : List Attempt} (known : o.Known)
    (free : ∀ attempt ∈ attempts, ∀ fd, attempt.fd = some fd → o.server.sockets fd = none) :
    (o.become (o.server.connectTo serviceId attempts).2
        ((Attempt.opened attempts).map (·, false))).Known ∧
      (o.server.connectTo serviceId attempts).2.closes =
        o.server.closes ++ Attempt.refusals attempts := by
  have cases := SocketServer.connectTo_cases o.server serviceId attempts free
  dsimp only at cases
  generalize eq : { o.server with closes := o.server.closes ++ Attempt.refusals attempts } = t at cases
  have slots : ∀ fd, t.slot fd = o.server.slot fd := fun fd => eq ▸ rfl
  have same : t.closes = o.server.closes ++ Attempt.refusals attempts := eq ▸ rfl
  rcases cases with ⟨result, opened⟩ | ⟨fd, ip, result, opened, closed⟩
  · rw [result, opened]
    exact ⟨fun fd => (known fd).congr (slots fd), same⟩
  · rw [result, opened]
    have step : t.Step (.connect fd serviceId ip) (t.connect fd serviceId ip) :=
      .connect ((congrArg Slot.socket (slots fd)).trans closed)
    have managed : ((t.connect fd serviceId ip).slot fd).Managed :=
      (SocketServer.step_slots (P := fun _ => True) (I := fun _ => True) step
        (fun _ _ _ _ _ => trivial) (fun _ => trivial)
        (fun fd => ⟨((known fd).congr (slots fd)).managed, trivial⟩) fd).1
    obtain ⟨owned, -⟩ := SocketServer.step_owned step ((known fd).congr (slots fd)) managed
      (by rintro _ (h | h) <;> cases h)
    refine ⟨known.become fd (fun _ _ h => by cases h; rfl) owned fun fd' ne => ?_,
      (SocketServer.closes_connect serviceId ip).trans same⟩
    exact (SocketServer.step_other step ne).trans (slots fd')

theorem Known.release {fd : Int32} (known : o.Known) (unmanaged : o.server.conns fd = none) :
    (o.become (o.server.setSocket fd none) none).Known := by
  refine known.become fd nofun ?_ fun fd' ne => SocketServer.setSocket_other ne none
  refine ⟨⟨fun managed => ?_, (known fd).managed.buffered⟩, (known fd).bound, (known fd).makes,
    fun _ opened => ?_⟩
  · cases (unmanaged ▸ managed : (none : Option Conn).isSome = true)
  · rw [SocketServer.sockets_setSocket] at opened
    cases opened

/-- A step that meets the condition keeps the owners known and closes owned descriptors. -/
theorem Known.step (known : o.Known) (step : Step o op o') (on : o.OnManaged op)
    (owned : o.ClosesOwned) : o'.Known ∧ o'.ClosesOwned := by
  cases step with
  | @engine op server step =>
    obtain ⟨known', closes⟩ := known.engine step (by rintro fd (rfl | rfl) <;> exact on)
    refine ⟨known', ?_⟩
    rcases closes with closes | ⟨closes, own⟩
    · rw [ClosesOwned, become_closed_same closes]
      exact owned
    · obtain ⟨conn, managed, bound⟩ := Option.map_eq_some_iff.mp own
      rw [ClosesOwned, become_closed closes]
      intro call mem
      rcases List.mem_append.mp mem with mem | mem
      · exact owned call mem
      · rw [List.map_singleton, List.mem_singleton] at mem
        subst mem
        exact ⟨⟨conn, managed, bound⟩, ((known _).bound conn managed).symm.trans bound⟩
  | @connectTo serviceId attempts free =>
    obtain ⟨known', closes⟩ := known.connectTo serviceId free
    refine ⟨known', ?_⟩
    rw [show Attempt.refusals attempts = [] from on, List.append_nil] at closes
    rw [ClosesOwned, become_closed_same closes]
    exact owned
  | release own unmanaged =>
    refine ⟨known.release unmanaged, ?_⟩
    rw [ClosesOwned, become_closed_same (SocketServer.closes_setSocket none)]
    exact owned

/-- A step that does not meet the condition closes a descriptor that is not managed. -/
theorem Known.unmanaged_close (known : o.Known) (step : Step o op o') (off : ¬o.OnManaged op) :
    ∃ call ∈ o'.closed, call.conn = none := by
  have closed : ∀ fd server opens, server.closes = o.server.closes ++ [fd] →
      o.server.conns fd = none → ∃ call ∈ (o.become server opens).closed, call.conn = none := by
    intro fd server opens closes unmanaged
    refine ⟨⟨fd, o.server.conns fd, o.external fd⟩, ?_, unmanaged⟩
    rw [become_closed closes]
    exact List.mem_append_right _ List.mem_cons_self
  cases step with
  | engine step =>
    cases step with
    | closeConn fd =>
      have unmanaged : o.server.conns fd = none := by simpa [OnManaged] using off
      exact closed fd _ _ (SocketServer.closeConn_unmanaged unmanaged) unmanaged
    | lingerClose fd =>
      have unmanaged : o.server.conns fd = none := by simpa [OnManaged] using off
      have idle : o.server.writeBuffers fd = none := (known fd).managed.buffered unmanaged
      refine closed fd _ _ ?_ unmanaged
      rw [SocketServer.lingerClose, idle]
      exact SocketServer.dropConn_unmanaged unmanaged
    | _ => exact absurd trivial off
  | @connectTo serviceId attempts free =>
    obtain ⟨-, closes⟩ := known.connectTo serviceId free
    obtain ⟨fd, rest, refused⟩ := List.exists_cons_of_ne_nil (show Attempt.refusals attempts ≠ [] from off)
    have attempt : ∃ attempt ∈ attempts, attempt.fd = some fd := by
      clear free closes off known
      induction attempts with
      | nil => cases refused
      | cons attempt later ih =>
        cases attempt with
        | noSocket =>
          obtain ⟨attempt, mem, eq⟩ := ih refused
          exact ⟨attempt, List.mem_cons_of_mem _ mem, eq⟩
        | refused fd' =>
          cases refused
          exact ⟨.refused fd, List.mem_cons_self, rfl⟩
        | inProgress fd' | connected fd' ip => cases refused
    obtain ⟨attempt, mem, eq⟩ := attempt
    refine ⟨⟨fd, o.server.conns fd, o.external fd⟩, ?_, (known fd).free (free attempt mem fd eq)⟩
    rw [become_closed closes, refused]
    exact List.mem_append_right _ List.mem_cons_self
  | release => exact absurd trivial off

theorem closed_of_step (step : Step o op o') : ∀ call ∈ o.closed, call ∈ o'.closed := by
  cases step <;> exact fun _ => List.mem_append_left _

theorem known_of_onManaged {tr : List OwnerOp}
    (run : (owners.restrict OnManaged).Run o tr) : o.Known ∧ o.ClosesOwned := by
  refine run.stateInvariant (P := fun o => o.Known ∧ o.ClosesOwned) ?_ ?_
  · rintro _ rfl
    refine ⟨fun fd => ⟨Slot.Managed.initial, fun conn managed => ?_, fun conn managed => ?_,
      fun _ opened => ?_⟩, fun call mem => ?_⟩
    · cases managed
    · cases managed
    · cases opened
    · cases mem
  · rintro o op o' ⟨known, owned⟩ ⟨step, on⟩
    exact known.step step on owned

end Owners

/-- The engine closes owned descriptors only exactly in the runs that close managed ones only. -/
theorem closesOwned_iff {o : Owners} {tr : List OwnerOp} (run : owners.Run o tr) :
    o.ClosesOwned ↔ (owners.restrict Owners.OnManaged).Run o tr := by
  refine ⟨fun owned => ?_, fun run => (Owners.known_of_onManaged run).2⟩
  induction run with
  | init start => exact .init start
  | @step o o' tr op run step ih =>
    have before : o.ClosesOwned := fun call mem => owned call (Owners.closed_of_step step call mem)
    refine (ih before).step ⟨step, ?_⟩
    by_contra off
    obtain ⟨known, -⟩ := Owners.known_of_onManaged (ih before)
    obtain ⟨call, mem, unmanaged⟩ := known.unmanaged_close step off
    obtain ⟨⟨conn, managed, -⟩, -⟩ := owned call mem
    cases unmanaged.symm.trans managed

/-- A bound descriptor stays open while `Connect` opens one that `CloseConn` closes. -/
theorem closesOwned_closeConn : ∃ o tr, owners.Run o tr ∧
    o.closed = [⟨6, some ⟨.client, 7, true, false, false, readBufferMin, 0, [], []⟩, false⟩] ∧
    o.ClosesOwned := by
  let o₀ : Owners := ⟨.initial, fun _ => false, []⟩
  let o₁ := o₀.become (o₀.server.setSocket 5 (some {})) (some (5, true))
  let o₂ := o₁.become (o₁.server.bind 5 7 false).2 none
  let o₃ := o₂.become (o₂.server.connectTo 7 [.noSocket, .inProgress 6]).2 (some (6, false))
  let o₄ := o₃.become (o₃.server.closeConn 6) none
  have step₁ : Owners.Step o₀ (.engine (.openFd 5)) o₁ := .engine (.openFd rfl)
  have step₂ : Owners.Step o₁ (.engine (.bind 5 7 false)) o₂ := .engine (.bind ..)
  have step₃ : Owners.Step o₂ (.connectTo 7 [.noSocket, .inProgress 6]) o₃ := by
    refine .connectTo fun attempt mem fd eq => ?_
    rcases List.mem_pair.mp mem with rfl | rfl <;> cases eq
    rfl
  have step₄ : Owners.Step o₃ (.engine (.closeConn 6)) o₄ := .engine (.closeConn ..)
  have run₀ : (owners.restrict Owners.OnManaged).Run o₀ [] := .init rfl
  have run₄ := (((run₀.step ⟨step₁, trivial⟩).step ⟨step₂, trivial⟩).step ⟨step₃, rfl⟩).step
    ⟨step₄, rfl⟩
  exact ⟨o₄, _, run₄.of_restrict, rfl, (closesOwned_iff run₄.of_restrict).mpr run₄⟩

/-- A bound descriptor that the end of its stream has given back is closed by `CloseConn`. -/
theorem not_closesOwned_bound : ¬∀ o tr, owners.Run o tr → o.ClosesOwned := by
  intro claim
  let o₀ : Owners := ⟨.initial, fun _ => false, []⟩
  let o₁ := o₀.become (o₀.server.setSocket 5 (some {})) (some (5, true))
  let o₂ := o₁.become (o₁.server.bind 5 7 false).2 none
  let o₃ := o₂.become (o₂.server.onRW 5 true false { reads := [.eof] }) none
  let o₄ := o₃.become (o₃.server.closeConn 5) none
  have step₁ : Owners.Step o₀ (.engine (.openFd 5)) o₁ := .engine (.openFd rfl)
  have step₂ : Owners.Step o₁ (.engine (.bind 5 7 false)) o₂ := .engine (.bind ..)
  have step₃ : Owners.Step o₂ (.engine (.onRW 5 true false { reads := [.eof] })) o₃ :=
    .engine (.onRW (show o₂.server.conns 5 = some ((o₂.server.conns 5).get rfl) from rfl) (by decide))
  have step₄ : Owners.Step o₃ (.engine (.closeConn 5)) o₄ := .engine (.closeConn ..)
  have run₀ : owners.Run o₀ [] := .init rfl
  have run₄ := (((run₀.step step₁).step step₂).step step₃).step step₄
  have closed : o₄.closed = [⟨5, none, true⟩] := rfl
  obtain ⟨⟨conn, managed, -⟩, -⟩ := claim o₄ _ run₄ ⟨5, none, true⟩ (closed ▸ List.mem_cons_self)
  cases managed

end Starnet
