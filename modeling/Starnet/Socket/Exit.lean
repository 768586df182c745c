import Starnet.Socket.Ownership

/-! The end of the socket thread. When `exitFlag` is set, `CloseAll` takes the descriptors of `conns`
and closes them one after the other, while the workers may still call the engine. The ledger of a
descriptor says that each time the engine has opened it and put it into `conns`, it has been closed
once, or is still there. -/

namespace Starnet

/-- What the system calls of `Starnet::Listen` or of `AddUdp` answer. -/
inductive Opening
  | noSocket
  | refused (fd : Int32)
  | made (fd : Int32)
  deriving DecidableEq, Repr

/-- The descriptor that `socket` gives. -/
def Opening.fd : Opening → Option Int32
  | noSocket => none
  | refused fd | made fd => some fd

namespace SocketServer

/-- `Starnet::Listen`: the result and the engine after the call. Its error paths do not close the
socket. -/
def listenOn (s : SocketServer) (serviceId : UInt32) : Opening → Int32 × SocketServer
  | .noSocket => (-1, s)
  | .refused fd => (-1, s.setSocket fd (some {}))
  | .made fd => if fd ≤ 0 then (-1, s.setSocket fd (some {})) else (fd, s.listen fd serviceId)

/-- `AddUdp`: the result and the engine after the call. -/
def addUdp (s : SocketServer) (serviceId : UInt32) : Opening → Int32 × SocketServer
  | .noSocket => (-1, s)
  | .refused fd => (-1, (s.setSocket fd (some {})).close fd)
  | .made fd => (fd, ((s.setSocket fd (some {})).addConn fd { type := .udp, serviceId }).addEvent fd)

/-- One round of the loop in `CloseAll`. -/
def closeRound (s : SocketServer) (fd : Int32) : SocketServer :=
  let s := s.removeEvent fd
  let isBind := s.connHas fd Conn.isBind
  let s := s.removeConn fd
  if isBind then s else s.close fd

end SocketServer

/-- The engine, and the descriptors that `CloseAll` has yet to close once it has begun. -/
structure Exit where
  owners : Owners
  closing : Option (List Int32)

/-- A call or an event as before, `Starnet::Listen` and `AddUdp` with the answers of the kernel, the
snapshot of `CloseAll`, or one round of its loop. -/
inductive ExitOp
  | owner (op : OwnerOp)
  | listen (serviceId : UInt32) (opening : Opening)
  | udp (serviceId : UInt32) (opening : Opening)
  | snapshot (fds : List Int32)
  | round (fd : Int32)
  deriving DecidableEq, Repr

/-- The socket thread does the operation. -/
def OwnerOp.OnEvent : OwnerOp → Prop
  | .engine (.accept ..) | .engine (.onRW ..) => True
  | _ => False

namespace ExitOp

/-- The descriptor that the engine opens and puts into `conns`. -/
def entered : ExitOp → Option Int32
  | owner (.engine (.listen fd _)) | owner (.engine (.accept _ fd)) |
    owner (.engine (.connect fd _ _)) => some fd
  | owner (.connectTo _ attempts) => Attempt.opened attempts
  | listen _ (.made fd) => if fd ≤ 0 then none else some fd
  | udp _ (.made fd) => some fd
  | _ => none

/-- The operation may put the descriptor into `conns`. -/
def Adds (op : ExitOp) (fd : Int32) : Prop :=
  op.entered = some fd ∨ ∃ serviceId datagram, op = owner (.engine (.bind fd serviceId datagram))

/-- The descriptor that `Starnet::Listen` opens, and whether it forgets it. -/
def listens : Opening → Option (Int32 × Bool)
  | .noSocket => none
  | .refused fd => some (fd, true)
  | .made fd => some (fd, fd ≤ 0)

/-- The descriptor that `AddUdp` opens and keeps. -/
def datagrams : Opening → Option (Int32 × Bool)
  | .made fd => some (fd, false)
  | _ => none

end ExitOp

namespace Exit

/-- The steps. A socket that `Starnet::Listen` has forgotten is nobody's, which counts as outside the
engine. -/
inductive Step : Exit → ExitOp → Exit → Prop
  | owner {x : Exit} {op owners} (step : x.owners.Step op owners)
      (thread : x.closing.isSome = true → ¬op.OnEvent) : Step x (.owner op) { x with owners }
  | listen {x : Exit} {serviceId opening}
      (free : ∀ fd, opening.fd = some fd → x.owners.server.sockets fd = none) :
      Step x (.listen serviceId opening)
        { x with
          owners := x.owners.become (x.owners.server.listenOn serviceId opening).2
            (ExitOp.listens opening) }
  | udp {x : Exit} {serviceId opening}
      (free : ∀ fd, opening.fd = some fd → x.owners.server.sockets fd = none) :
      Step x (.udp serviceId opening)
        { x with
          owners := x.owners.become (x.owners.server.addUdp serviceId opening).2
            (ExitOp.datagrams opening) }
  | snapshot {x : Exit} {fds} (serving : x.closing = none) (once : fds.Nodup)
      (keys : ∀ fd, fd ∈ fds ↔ (x.owners.server.conns fd).isSome = true) :
      Step x (.snapshot fds) { x with closing := some fds }
  | round {x : Exit} {fd rest} (next : x.closing = some (fd :: rest)) :
      Step x (.round fd) ⟨x.owners.become (x.owners.server.closeRound fd) none, some rest⟩

end Exit

/-- The engine from its start to the end of `CloseAll`. -/
def exit : Transition.System Exit ExitOp where
  init x := x = ⟨⟨.initial, fun _ => false, []⟩, none⟩
  step := Exit.Step

theorem Attempt.mem_refusals {attempts : List Attempt} {fd : Int32}
    (mem : fd ∈ Attempt.refusals attempts) : ∃ attempt ∈ attempts, attempt.fd = some fd := by
  induction attempts with
  | nil => cases mem
  | cons attempt rest ih =>
    have later : fd ∈ Attempt.refusals rest → ∃ a ∈ attempt :: rest, a.fd = some fd := fun mem => by
      obtain ⟨a, mem, eq⟩ := ih mem
      exact ⟨a, List.mem_cons_of_mem _ mem, eq⟩
    cases attempt with
    | noSocket => exact later mem
    | refused fd' =>
      rcases List.mem_cons.mp mem with rfl | mem
      · exact ⟨.refused fd, List.mem_cons_self, rfl⟩
      · exact later mem
    | inProgress | connected => cases mem

/-! ### What a step does to the ledger -/

/-- 1 if the engine manages the descriptor and has opened it. -/
def SocketServer.own (s : SocketServer) (fd : Int32) : Nat :=
  if s.connHas fd (fun conn => !conn.isBind) then 1 else 0

/-- The calls of `close` for a descriptor while it was managed. -/
def released (closed : List CloseCall) (fd : Int32) : Nat :=
  closed.countP fun call => call.fd = fd ∧ call.conn.isSome

namespace SocketServer

variable {s s' : SocketServer} {fd : Int32} {conn : Conn}

/-- What an operation does to its descriptor, which it opens outside the engine if `opens` is
`some true` and in the engine if it is `some false`; `binds` says whether it is `Bind`. -/
inductive Effect (s s' : SocketServer) (fd : Int32) : Option Bool → Bool → Prop
  | handle {binds : Bool} (h : Handles s s' fd) : Effect s s' fd none binds
  | outside (unmanaged : s.conns fd = none) (still : s'.conns fd = none)
      (closes : s'.closes = s.closes) : Effect s s' fd (some true) false
  | enter (unmanaged : s.conns fd = none) {conn} (new : s'.conns fd = some conn)
      (own : conn.isBind = false)
      (closes : s'.closes = s.closes) : Effect s s' fd (some false) false
  | bound (unmanaged : s.conns fd = none) (socket : (s.sockets fd).isSome = true) {conn}
      (new : s'.conns fd = some conn) (bound : conn.isBind = true) (made : conn.connecting = false)
      (closes : s'.closes = s.closes) : Effect s s' fd none true
  | stray (unmanaged : s.conns fd = none) (still : s'.conns fd = none)
      (socket : s'.sockets fd = none) (closes : s'.closes = s.closes ++ [fd]) :
      Effect s s' fd none false

theorem own_some (managed : s.conns fd = some conn) : s.own fd = if conn.isBind then 0 else 1 := by
  rw [own, connHas_eq managed]
  cases conn.isBind <;> rfl

theorem own_none (unmanaged : s.conns fd = none) : s.own fd = 0 := by
  rw [own, connHas, unmanaged]
  rfl

theorem own_eq (same : (s'.conns fd).map Conn.isBind = (s.conns fd).map Conn.isBind) :
    s'.own fd = s.own fd := by
  cases before : s.conns fd with
  | none =>
    rw [before, Option.map_none, Option.map_eq_none_iff] at same
    rw [own_none same, own_none before]
  | some conn =>
    rw [before, Option.map_some, Option.map_eq_some_iff] at same
    obtain ⟨conn', after, bound⟩ := same
    rw [own_some before, own_some after, bound]

/-- What a step does to the ledger of every descriptor. `entered` is the descriptor that the engine
opens, `adds` are those that it may put into `conns`, and `fds` are those that it closes. -/
structure Change (s s' : SocketServer) (entered : Option Int32) (adds : Int32 → Prop)
    (fds : List Int32) : Prop where
  closes : s'.closes = s.closes ++ fds
  balance : ∀ fd, s'.own fd + (if (s.conns fd).isSome then fds.count fd else 0) =
    s.own fd + if entered = some fd then 1 else 0
  fair : ∀ fd ∈ fds, ∀ conn, s.conns fd = some conn → conn.isBind = false
  arrivals : ∀ fd, (s'.conns fd).isSome = true → (s.conns fd).isSome = true ∨ adds fd

/-- A step on one descriptor. -/
theorem Change.single {entered : Option Int32} {adds : Int32 → Prop} {fds : List Int32}
    (others : ∀ fd', fd' ≠ fd → s'.slot fd' = s.slot fd') (only : entered = none ∨ entered = some fd)
    (own : ∀ fd' ∈ fds, fd' = fd) (closes : s'.closes = s.closes ++ fds)
    (balance : s'.own fd + (if (s.conns fd).isSome then fds.count fd else 0) =
      s.own fd + if entered = some fd then 1 else 0)
    (fair : fds ≠ [] → ∀ conn, s.conns fd = some conn → conn.isBind = false)
    (arrives : (s'.conns fd).isSome = true → (s.conns fd).isSome = true ∨ adds fd) :
    Change s s' entered adds fds := by
  have conns : ∀ fd', fd' ≠ fd → s'.conns fd' = s.conns fd' := fun fd' ne =>
    congrArg Slot.conn (others fd' ne)
  refine ⟨closes, fun fd' => ?_, fun fd' mem => ?_, fun fd' some => ?_⟩
  · by_cases same : fd' = fd
    · rw [same]
      exact balance
    · have notEntered : entered ≠ some fd' := by
        rcases only with none | here
        · rw [none]
          exact nofun
        · rw [here]
          exact fun eq => same (Option.some.inj eq).symm
      have notClosed : fds.count fd' = 0 :=
        List.count_eq_zero_of_not_mem fun mem => same (own fd' mem)
      rw [own_eq (congrArg _ (conns fd' same)), notClosed, if_neg notEntered, ite_self]
  · rw [own fd' mem]
    exact fair (List.ne_nil_of_mem mem)
  · by_cases same : fd' = fd
    · rw [same] at some ⊢
      exact arrives some
    · exact Or.inl (conns fd' same ▸ some)

namespace Effect

variable {opens : Option Bool} {binds : Bool}

/-- The owner of the descriptor stays known. -/
theorem owned {external : Bool} (e : Effect s s' fd opens binds) (o : Owned s external fd)
    (managed : (s'.slot fd).Managed) : Owned s' (opens.getD external) fd := by
  cases e with
  | handle h => exact o.handles h managed
  | outside unmanaged still closes =>
    refine ⟨managed, fun conn new => ?_, fun conn new => ?_, fun _ _ => rfl⟩
    · cases still.symm.trans new
    · cases still.symm.trans new
  | enter unmanaged new own closes => exact .manage managed new own fun _ => own
  | bound unmanaged socket new bound made closes =>
    refine .manage managed new (bound.trans (o.unmanaged unmanaged socket).symm) fun connecting => ?_
    rw [made] at connecting
    cases connecting
  | stray unmanaged still socket closes =>
    refine ⟨managed, fun conn new => ?_, fun conn new => ?_, fun _ opened => ?_⟩
    · cases still.symm.trans new
    · cases still.symm.trans new
    · rw [socket] at opened
      cases opened

/-- The ledger of an operation on one descriptor. -/
theorem change (e : Effect s s' fd opens binds)
    (others : ∀ fd', fd' ≠ fd → s'.slot fd' = s.slot fd') :
    ∃ fds, Change s s' (if opens = some false then some fd else none)
      (fun fd' => fd' = fd ∧ (opens = some false ∨ binds = true)) fds := by
  have silent : ∀ {entered : Option Int32} {adds : Int32 → Prop},
      (entered = none ∨ entered = some fd) → s'.closes = s.closes →
      s'.own fd = s.own fd + (if entered = some fd then 1 else 0) →
      ((s'.conns fd).isSome = true → (s.conns fd).isSome = true ∨ adds fd) →
      Change s s' entered adds [] := fun only closes balance arrives =>
    .single others only nofun (closes.trans (List.append_nil _).symm)
      (by rw [List.count_nil, ite_self, Nat.add_zero, balance]) (absurd rfl) arrives
  cases e with
  | handle h =>
    cases h with
    | keep k =>
      have same : (s'.conns fd).isSome = (s.conns fd).isSome := by
        rw [← Option.isSome_map (f := Conn.isBind), k.bound, Option.isSome_map]
      exact ⟨[], silent (Or.inl rfl) k.closes (own_eq k.bound) fun some => Or.inl (same ▸ some)⟩
    | close own closes gone socket =>
      obtain ⟨conn, managed, bound⟩ := Option.map_eq_some_iff.mp own
      refine ⟨[fd], .single others (Or.inl rfl) (fun _ => List.mem_singleton.mp) closes ?_ ?_ ?_⟩
      · rw [own_none gone, own_some managed, managed, bound]
        simp
      · intro _ conn' managed'
        cases managed.symm.trans managed'
        exact bound
      · rw [gone]
        exact nofun
    | giveBack bound closes gone socket =>
      obtain ⟨conn, managed, isBind⟩ := Option.map_eq_some_iff.mp bound
      refine ⟨[], silent (Or.inl rfl) closes ?_ ?_⟩
      · rw [own_none gone, own_some managed, isBind]
        rfl
      · rw [gone]
        exact nofun
  | outside unmanaged still closes =>
    refine ⟨[], silent (Or.inl rfl) closes ?_ ?_⟩
    · rw [own_none still, own_none unmanaged]
      rfl
    · rw [still]
      exact nofun
  | enter unmanaged new own closes =>
    refine ⟨[], silent (Or.inr rfl) closes ?_ fun _ => Or.inr ⟨rfl, Or.inl rfl⟩⟩
    rw [own_none unmanaged, own_some new, own]
    simp
  | bound unmanaged socket new bound made closes =>
    refine ⟨[], silent (Or.inl rfl) closes ?_ fun _ => Or.inr ⟨rfl, Or.inr rfl⟩⟩
    rw [own_none unmanaged, own_some new, bound]
    rfl
  | stray unmanaged still socket closes =>
    refine ⟨[fd], .single others (Or.inl rfl) (fun _ => List.mem_singleton.mp) closes ?_ ?_ ?_⟩
    · rw [own_none still, own_none unmanaged, unmanaged]
      rfl
    · intro _ conn managed
      cases unmanaged.symm.trans managed
    · rw [still]
      exact nofun

end Effect

/-! ### The operations -/

/-- The operation is `Bind`. -/
def binds : SocketOp → Bool
  | .bind .. => true
  | _ => false

theorem bind_effect (s : SocketServer) (fd : Int32) (serviceId : UInt32) (datagram : Bool) :
    Effect s (s.bind fd serviceId datagram).2 fd none true := by
  unfold bind
  split
  · exact .handle (.refl s fd)
  split
  · exact .handle (.refl s fd)
  · rename_i opened unmanaged
    replace opened : (s.sockets fd).isSome = true := by
      rw [Option.isSome_iff_ne_none]
      simpa using opened
    replace unmanaged : s.conns fd = none := by simpa using unmanaged
    have new : (((s.addConn fd { type := if datagram then .udp else .client, serviceId }).modConn fd
        fun conn => { conn with isBind := true }).addEvent fd).conns fd = some
          { type := if datagram then .udp else .client, serviceId, isBind := true } := by
      simp [addConn, unmanaged, modConn, addEvent, epollAdd]
    exact .bound unmanaged opened new rfl rfl (closes_addConn _)

/-- `CloseConn`, `LingerClose` and `CloseAll` close a descriptor that they do not find in `conns`. -/
theorem closeConn_effect (s : SocketServer) (fd : Int32) :
    Effect s (s.closeConn fd) fd none false := by
  cases managed : s.conns fd with
  | some conn => exact .handle (closeConn_handles managed)
  | none =>
    have own : s.connHas fd Conn.isBind = false := by rw [connHas, managed]; rfl
    exact .stray managed (closeConn_clears s fd).1 (by simp [closeConn, own, managed])
      (closeConn_unmanaged managed)

theorem lingerClose_effect (buffered : s.conns fd = none → s.writeBuffers fd = none) :
    Effect s (s.lingerClose fd) fd none false := by
  cases managed : s.conns fd with
  | some conn => exact .handle (lingerClose_handles managed)
  | none =>
    have own : s.connHas fd Conn.isBind = false := by rw [connHas, managed]; rfl
    rw [lingerClose, buffered managed]
    exact .stray managed (dropConn_clears s fd).1 (by simp [dropConn, own])
      (dropConn_unmanaged managed)

theorem closeRound_other {fd' : Int32} (ne : fd' ≠ fd) :
    (s.closeRound fd).slot fd' = s.slot fd' := by
  unfold closeRound
  dsimp only
  split
  · rw [removeConn_other ne, removeEvent_other ne]
  · rw [close_other ne, removeConn_other ne, removeEvent_other ne]

theorem closeRound_clears (s : SocketServer) (fd : Int32) :
    ((s.closeRound fd).slot fd).conn = none ∧ ((s.closeRound fd).slot fd).buffer = none := by
  unfold closeRound
  dsimp only
  split <;> exact ⟨by simp, by simp⟩

theorem closeRound_effect (s : SocketServer) (fd : Int32) :
    Effect s (s.closeRound fd) fd none false := by
  have bind : (s.removeEvent fd).connHas fd Conn.isBind = s.connHas fd Conn.isBind := rfl
  cases managed : s.conns fd with
  | some conn =>
    refine .handle (.leave managed (fun bound => ?_) fun own => ?_)
    · simp [closeRound, bind, connHas_eq managed, bound]
    · simp [closeRound, bind, connHas_eq managed, own]
  | none =>
    have own : s.connHas fd Conn.isBind = false := by rw [connHas, managed]; rfl
    exact .stray managed (closeRound_clears s fd).1 (by simp [closeRound, bind, own])
      (by simp [closeRound, bind, own])

/-- The effect of a call or an event. -/
theorem step_effect {op : SocketOp} {external : Bool} (step : s.Step op s')
    (o : Owned s external (opFd op)) :
    Effect s s' (opFd op) (op.opens.map Prod.snd) (binds op) := by
  cases step with
  | openFd free => exact .outside (o.free free) (o.free free) rfl
  | @listen fd serviceId free =>
    have unmanaged : s.conns fd = none := o.free free
    have new : (s.listen fd serviceId).conns fd = some { type := .listen, serviceId } := by
      simp [SocketServer.listen, addConn, unmanaged, addEvent, epollAdd]
    exact .enter unmanaged new rfl (closes_addConn _)
  | @accept listenFd fd conn listener type free =>
    have unmanaged : s.conns fd = none := o.free free
    have new : (s.onAccept listenFd fd conn.serviceId).conns fd =
        some { type := .client, serviceId := conn.serviceId } := by
      simp [onAccept, addConn, unmanaged, epollAdd]
    exact .enter unmanaged new rfl (closes_addConn _)
  | @connect fd serviceId ip free =>
    obtain ⟨conn, new, own⟩ := connect_conns (o.free free) serviceId ip
    exact .enter (o.free free) new own (closes_connect serviceId ip)
  | bind fd serviceId datagram => exact bind_effect s fd serviceId datagram
  | sendBuffer fd buff low writes => exact .handle (.keep (sendBuffer_keeps ..))
  | onRW _ _ => exact .handle (onRW_handles o.makes ..)
  | pauseRead fd => exact .handle (.keep (setPaused_keeps ..))
  | resumeRead fd => exact .handle (.keep (setPaused_keeps ..))
  | lingerClose fd => exact lingerClose_effect o.managed.buffered
  | closeConn fd => exact closeConn_effect s fd

/-- Sockets that are opened and closed at once, before the rest of the call. -/
theorem Change.after_refusals {entered : Option Int32} {adds : Int32 → Prop} {refused : List Int32}
    (unmanaged : ∀ fd ∈ refused, s.conns fd = none) {fds : List Int32}
    (change : Change { s with closes := s.closes ++ refused } s' entered adds fds) :
    Change s s' entered adds (refused ++ fds) := by
  refine ⟨?_, fun fd => ?_, fun fd mem conn managed => ?_, change.arrivals⟩
  · rw [change.closes, List.append_assoc]
  · have balance := change.balance fd
    change _ = s.own fd + _ at balance
    rw [← balance]
    by_cases managed : (s.conns fd).isSome = true
    · have none : refused.count fd = 0 := List.count_eq_zero_of_not_mem fun mem => by
        rw [unmanaged fd mem] at managed
        cases managed
      rw [List.count_append, none, Nat.zero_add]
    · rw [if_neg managed, if_neg managed]
  · rcases List.mem_append.mp mem with mem | mem
    · cases (unmanaged fd mem).symm.trans managed
    · exact change.fair fd mem conn managed

theorem Change.none (same : s'.conns = s.conns) (closes : s'.closes = s.closes)
    (adds : Int32 → Prop) : Change s s' Option.none adds [] := by
  refine ⟨closes.trans (List.append_nil _).symm, fun fd => ?_, nofun, fun fd some => ?_⟩
  · have kept : s'.own fd = s.own fd := own_eq (by rw [same])
    simp [kept]
  · exact Or.inl (same ▸ some)

theorem Change.mono {entered : Option Int32} {adds adds' : Int32 → Prop} {fds : List Int32}
    (change : Change s s' entered adds fds) (wider : ∀ fd, adds fd → adds' fd) :
    Change s s' entered adds' fds :=
  ⟨change.closes, change.balance, change.fair,
    fun fd some => (change.arrivals fd some).imp_right (wider fd)⟩

end SocketServer

namespace Owners

open SocketServer (opFd Owned Effect Change)

variable {o o' : Owners} {op : OwnerOp} {server : SocketServer}

/-- The step adds the calls of `close` for `fds`, and the owners stay known. -/
structure Moves (o o' : Owners) (entered : Option Int32) (adds : Int32 → Prop)
    (fds : List Int32) : Prop where
  known : o'.Known
  closed : o'.closed = o.closed ++ fds.map fun fd => ⟨fd, o.server.conns fd, o.external fd⟩
  change : Change o.server o'.server entered adds fds

/-- An operation on one descriptor. -/
theorem Known.effect (known : o.Known) {fd : Int32} {opens : Option (Int32 × Bool)} {binds : Bool}
    (e : Effect o.server server fd (opens.map Prod.snd) binds)
    (only : ∀ fd' external, opens = some (fd', external) → fd' = fd)
    (managed : (server.slot fd).Managed)
    (others : ∀ fd', fd' ≠ fd → server.slot fd' = o.server.slot fd') :
    ∃ fds, Moves o (o.become server opens)
      (if opens.map Prod.snd = some false then some fd else none)
      (fun fd' => fd' = fd ∧ (opens.map Prod.snd = some false ∨ binds = true)) fds := by
  obtain ⟨fds, change⟩ := e.change others
  exact ⟨fds, known.become fd only (e.owned (known fd) managed) others, become_closed change.closes,
    change⟩

/-- A call or an event of the engine, `Connect`, or a close by the owner. -/
theorem Known.moves (known : o.Known) (step : Step o op o') :
    ∃ fds, Moves o o' (ExitOp.owner op).entered (ExitOp.owner op).Adds fds := by
  cases step with
  | @engine op server step =>
    have managed : (server.slot (opFd op)).Managed :=
      (SocketServer.step_slots (P := fun _ => True) (I := fun _ => True) step
        (fun _ _ _ _ _ => trivial) (fun _ => trivial)
        (fun fd => ⟨(known fd).managed, trivial⟩) (opFd op)).1
    obtain ⟨fds, moves⟩ := known.effect (SocketServer.step_effect step (known (opFd op)))
      (opens_opFd op) managed fun _ => SocketServer.step_other step
    have entered : (if op.opens.map Prod.snd = some false then some (opFd op) else none) =
        (ExitOp.owner (.engine op)).entered := by
      cases op <;> rfl
    refine ⟨fds, moves.known, moves.closed, ?_⟩
    rw [← entered]
    refine moves.change.mono ?_
    rintro fd ⟨rfl, enters | binds⟩
    · exact Or.inl (by rw [← entered, if_pos enters])
    · cases op with
      | bind fd serviceId datagram => exact Or.inr ⟨serviceId, datagram, rfl⟩
      | _ => cases binds
  | @connectTo serviceId attempts free =>
    obtain ⟨known', -⟩ := known.connectTo serviceId free
    have refused : ∀ fd ∈ Attempt.refusals attempts, o.server.conns fd = none := by
      intro fd mem
      obtain ⟨attempt, mem, eq⟩ := Attempt.mem_refusals mem
      exact (known fd).free (free attempt mem fd eq)
    have cases := SocketServer.connectTo_cases o.server serviceId attempts free
    dsimp only at cases
    have change : ∃ fds, Change { o.server with
          closes := o.server.closes ++ Attempt.refusals attempts }
        (o.server.connectTo serviceId attempts).2 (Attempt.opened attempts)
        (ExitOp.owner (.connectTo serviceId attempts)).Adds fds := by
      have slots : ∀ fd, SocketServer.slot { o.server with
          closes := o.server.closes ++ Attempt.refusals attempts } fd = o.server.slot fd :=
        fun fd => rfl
      generalize { o.server with closes := o.server.closes ++ Attempt.refusals attempts } = t
        at cases slots
      rcases cases with ⟨result, opened⟩ | ⟨fd, ip, result, opened, closed⟩
      · rw [result, opened]
        exact ⟨[], .none rfl rfl _⟩
      · rw [result, opened]
        have unmanaged : t.conns fd = none :=
          (congrArg Slot.conn (slots fd)).trans ((known fd).free closed)
        obtain ⟨conn, new, own⟩ := SocketServer.connect_conns unmanaged serviceId ip
        have effect : Effect t (t.connect fd serviceId ip) fd (some false) false :=
          .enter unmanaged new own (SocketServer.closes_connect serviceId ip)
        have step : t.Step (.connect fd serviceId ip) (t.connect fd serviceId ip) :=
          .connect ((congrArg Slot.socket (slots fd)).trans closed)
        obtain ⟨fds, change⟩ := effect.change fun _ => SocketServer.step_other step
        exact ⟨fds, change.mono fun fd' here => Or.inl (here.1 ▸ opened)⟩
    obtain ⟨fds, change⟩ := change
    have change := change.after_refusals refused
    exact ⟨_, known', become_closed change.closes, change⟩
  | @release fd own unmanaged =>
    have change : Change o.server (o.server.setSocket fd none) none
        (ExitOp.owner (.release fd)).Adds [] := by refine .none ?_ ?_ _ <;> rfl
    exact ⟨[], known.release unmanaged, become_closed change.closes, change⟩

/-- One round of `CloseAll`. -/
theorem Known.closeRound (known : o.Known) (fd : Int32) (op : ExitOp) (quiet : op.entered = none) :
    ∃ fds, Moves o (o.become (o.server.closeRound fd) none) op.entered op.Adds fds := by
  obtain ⟨conn, buffer⟩ := SocketServer.closeRound_clears o.server fd
  have managed : ((o.server.closeRound fd).slot fd).Managed := by
    refine ⟨fun some => ?_, fun _ => buffer⟩
    rw [conn] at some
    cases some
  have effect : Effect o.server (o.server.closeRound fd) fd
      ((none : Option (Int32 × Bool)).map Prod.snd) false := SocketServer.closeRound_effect ..
  obtain ⟨fds, moves⟩ := known.effect effect nofun managed fun _ => SocketServer.closeRound_other
  rw [quiet]
  exact ⟨fds, moves.known, moves.closed, moves.change.mono fun _ h => by simp at h⟩

/-- A socket that `Starnet::Listen` forgets. -/
theorem Known.forget (known : o.Known) {fd : Int32} (free : o.server.sockets fd = none) (op : ExitOp)
    (quiet : op.entered = none) :
    ∃ fds, Moves o (o.become (o.server.setSocket fd (some {})) (some (fd, true))) op.entered op.Adds
      fds := by
  have unmanaged := (known fd).free free
  have managed : ((o.server.setSocket fd (some {})).slot fd).Managed := by
    refine ⟨fun opened => ?_, (known fd).managed.buffered⟩
    rw [show ((o.server.setSocket fd (some {})).slot fd).conn = none from unmanaged] at opened
    cases opened
  have effect : Effect o.server (o.server.setSocket fd (some {})) fd
      ((some (fd, true)).map Prod.snd) false := .outside unmanaged unmanaged rfl
  obtain ⟨fds, moves⟩ := known.effect effect (by rintro _ _ ⟨⟩; rfl) managed
    fun _ ne => SocketServer.setSocket_other ne _
  rw [quiet]
  exact ⟨fds, moves.known, moves.closed, moves.change.mono fun _ h => by simp at h⟩

theorem Known.listenOn (known : o.Known) (serviceId : UInt32) {opening : Opening}
    (free : ∀ fd, opening.fd = some fd → o.server.sockets fd = none) :
    ∃ fds, Moves o (o.become (o.server.listenOn serviceId opening).2 (ExitOp.listens opening))
      (ExitOp.listen serviceId opening).entered (ExitOp.listen serviceId opening).Adds fds := by
  cases opening with
  | noSocket => exact ⟨[], known, become_closed (List.append_nil _).symm, .none rfl rfl _⟩
  | refused fd => exact known.forget (free fd rfl) (.listen serviceId (.refused fd)) rfl
  | made fd =>
    by_cases low : fd ≤ 0
    · have quiet : (ExitOp.listen serviceId (.made fd)).entered = none := if_pos low
      have forgets := known.forget (free fd rfl) (.listen serviceId (.made fd)) quiet
      rw [SocketServer.listenOn, if_pos low, ExitOp.listens, decide_eq_true low]
      exact forgets
    · have entered : (ExitOp.listen serviceId (.made fd)).entered = some fd := if_neg low
      have step : o.server.Step (.listen fd serviceId) (o.server.listen fd serviceId) :=
        .listen (free fd rfl)
      have managed : ((o.server.listen fd serviceId).slot fd).Managed :=
        (SocketServer.step_slots (P := fun _ => True) (I := fun _ => True) step
          (fun _ _ _ _ _ => trivial) (fun _ => trivial)
          (fun fd => ⟨(known fd).managed, trivial⟩) fd).1
      obtain ⟨fds, moves⟩ := known.effect (SocketServer.step_effect step (known fd))
        (opens_opFd _) managed fun _ => SocketServer.step_other step
      rw [SocketServer.listenOn, if_neg low, ExitOp.listens, decide_eq_false low, entered]
      exact ⟨fds, moves.known, moves.closed,
        moves.change.mono fun fd' here => Or.inl (here.1 ▸ entered)⟩

theorem Known.addUdp (known : o.Known) (serviceId : UInt32) {opening : Opening}
    (free : ∀ fd, opening.fd = some fd → o.server.sockets fd = none) :
    ∃ fds, Moves o (o.become (o.server.addUdp serviceId opening).2 (ExitOp.datagrams opening))
      (ExitOp.udp serviceId opening).entered (ExitOp.udp serviceId opening).Adds fds := by
  cases opening with
  | noSocket => exact ⟨[], known, become_closed (List.append_nil _).symm, .none rfl rfl _⟩
  | refused fd =>
    have closed := free fd rfl
    have unmanaged : ∀ fd' ∈ [fd], o.server.conns fd' = none := fun fd' mem => by
      rw [List.mem_singleton.mp mem]
      exact (known fd).free closed
    rw [SocketServer.addUdp, SocketServer.refused_close closed]
    have change : Change o.server { o.server with closes := o.server.closes ++ [fd] } none
        (ExitOp.udp serviceId (.refused fd)).Adds ([fd] ++ []) :=
      .after_refusals unmanaged (by refine .none ?_ ?_ _ <;> rfl)
    exact ⟨_, fun fd' => (known fd').congr rfl, become_closed change.closes, change⟩
  | made fd =>
    have unmanaged := (known fd).free (free fd rfl)
    have new : (((o.server.setSocket fd (some {})).addConn fd
        { type := .udp, serviceId }).addEvent fd).conns fd = some { type := .udp, serviceId } := by
      simp [SocketServer.addConn, unmanaged, SocketServer.addEvent, SocketServer.epollAdd]
    have effect : Effect o.server (o.server.addUdp serviceId (.made fd)).2 fd
        ((some (fd, false)).map Prod.snd) false :=
      .enter unmanaged new rfl (SocketServer.closes_addConn _)
    have managed : ((o.server.addUdp serviceId (.made fd)).2.slot fd).Managed := by
      refine ⟨fun _ => ?_, fun gone => ?_⟩
      · simp [SocketServer.addUdp, SocketServer.addConn, unmanaged, SocketServer.addEvent,
          SocketServer.epollAdd, Slot.Registered]
      · cases gone.symm.trans new
    obtain ⟨fds, moves⟩ := known.effect effect (by rintro _ _ ⟨⟩; rfl) managed fun fd' ne => by
      rw [SocketServer.addUdp, SocketServer.addEvent_other ne, SocketServer.addConn_other ne,
        SocketServer.setSocket_other ne]
    exact ⟨fds, moves.known, moves.closed, moves.change.mono fun fd' here => Or.inl (here.1 ▸ rfl)⟩

end Owners

/-! ### The ledger in a run -/

/-- The times that the engine has opened the descriptor and put it into `conns`. -/
def entries (fd : Int32) (tr : List ExitOp) : Nat := (tr.filterMap ExitOp.entered).count fd

namespace Exit

open SocketServer (Change)
open Owners (Moves)

variable {x x' : Exit} {tr : List ExitOp} {op : ExitOp}

/-- The ledger of every descriptor is balanced. -/
structure Books (x : Exit) (tr : List ExitOp) : Prop where
  known : x.owners.Known
  balance : ∀ fd, entries fd tr = released x.owners.closed fd + x.owners.server.own fd
  fair : ∀ call ∈ x.owners.closed, ∀ conn, call.conn = some conn → conn.isBind = false

/-- What a step does to the engine. -/
theorem Books.moves (books : Books x tr) (step : Step x op x') :
    ∃ fds, Moves x.owners x'.owners op.entered op.Adds fds := by
  have stay : ∃ fds, Moves x.owners x.owners none op.Adds fds :=
    ⟨[], books.known, (List.append_nil _).symm, .none rfl rfl _⟩
  cases step with
  | owner step thread => exact books.known.moves step
  | listen free => exact books.known.listenOn _ free
  | udp free => exact books.known.addUdp _ free
  | snapshot serving once keys => exact stay
  | @round fd rest next => exact books.known.closeRound fd (.round fd) rfl

theorem released_append (closed : List CloseCall) (fds : List Int32) (o : Owners) (fd : Int32) :
    released (closed ++ fds.map fun fd => ⟨fd, o.server.conns fd, o.external fd⟩) fd =
      released closed fd + if (o.server.conns fd).isSome then fds.count fd else 0 := by
  rw [released, List.countP_append, released, List.countP_map]
  congr 1
  split
  · next managed =>
    refine List.countP_congr fun fd' _ => ?_
    simp only [Function.comp_apply, decide_eq_true_eq, beq_iff_eq]
    exact ⟨And.left, fun same => ⟨same, same ▸ managed⟩⟩
  · next unmanaged =>
    refine List.countP_eq_zero.mpr fun fd' _ here => ?_
    simp only [Function.comp_apply, decide_eq_true_eq] at here
    exact unmanaged (here.1 ▸ here.2)

theorem entries_concat (fd : Int32) (tr : List ExitOp) (op : ExitOp) :
    entries fd (tr ++ [op]) = entries fd tr + if op.entered = some fd then 1 else 0 := by
  rw [entries, List.filterMap_append, List.count_append, entries]
  congr 1
  cases entered : op.entered with
  | none => simp [entered]
  | some fd' => simp [entered, List.count_singleton]

theorem Books.step (books : Books x tr) (step : Step x op x') : Books x' (tr ++ [op]) := by
  obtain ⟨fds, moves⟩ := books.moves step
  refine ⟨moves.known, fun fd => ?_, fun call mem conn managed => ?_⟩
  · have before := books.balance fd
    have change := moves.change.balance fd
    rw [entries_concat, moves.closed, released_append]
    omega
  · rw [moves.closed] at mem
    rcases List.mem_append.mp mem with old | new
    · exact books.fair call old conn managed
    · obtain ⟨fd, closed, rfl⟩ := List.mem_map.mp new
      exact moves.change.fair fd closed conn managed

theorem Books.run (run : exit.Run x tr) : Books x tr := by
  refine run.invariant (P := Books) ?_ fun _ _ _ _ _ books step => books.step step
  rintro _ rfl
  refine ⟨fun fd => ⟨Slot.Managed.initial, fun conn managed => ?_, fun conn managed => ?_,
    fun _ opened => ?_⟩, fun fd => rfl, nofun⟩
  · cases managed
  · cases managed
  · cases opened

/-- After the snapshot a managed descriptor is one that `CloseAll` has yet to close, or one that has
come since. -/
theorem managed_after_snapshot {x₁ : Exit} {tr₁ tr₂ : List ExitOp} {fds : List Int32}
    (before : exit.Run x₁ tr₁) (closing : x₁.closing = some fds)
    (keys : ∀ fd, (x₁.owners.server.conns fd).isSome = true → fd ∈ fds)
    (later : (exit.after x₁).Run x tr₂) :
    ∃ rest, x.closing = some rest ∧ ∀ fd, (x.owners.server.conns fd).isSome = true →
      fd ∈ rest ∨ ∃ op ∈ tr₂, op.Adds fd := by
  refine later.invariant (P := fun x tr => ∃ rest, x.closing = some rest ∧
    ∀ fd, (x.owners.server.conns fd).isSome = true → fd ∈ rest ∨ ∃ op ∈ tr, op.Adds fd) ?_ ?_
  · rintro _ rfl
    exact ⟨fds, closing, fun fd managed => Or.inl (keys fd managed)⟩
  · rintro x tr op x' run ⟨rest, closing, kept⟩ step
    obtain ⟨closed, moves⟩ := (Books.run (before.append run)).moves step
    have mem : ∀ fd, (x'.owners.server.conns fd).isSome = true →
        fd ∈ rest ∨ ∃ op' ∈ tr ++ [op], op'.Adds fd := fun fd managed => by
      rcases moves.change.arrivals fd managed with managed | adds
      · refine (kept fd managed).imp_right ?_
        rintro ⟨op', mem, adds⟩
        exact ⟨op', List.mem_append_left _ mem, adds⟩
      · exact Or.inr ⟨op, List.mem_append_right _ List.mem_cons_self, adds⟩
    cases step with
    | owner | listen | udp => exact ⟨rest, closing, mem⟩
    | snapshot serving => cases closing.symm.trans serving
    | @round fd others next =>
      cases closing.symm.trans next
      refine ⟨others, rfl, fun fd' managed => ?_⟩
      refine (mem fd' managed).imp_left fun here => (List.mem_cons.mp here).resolve_left ?_
      rintro rfl
      have gone : (x.owners.server.closeRound fd').conns fd' = none :=
        (SocketServer.closeRound_clears x.owners.server fd').1
      change ((x.owners.server.closeRound fd').conns fd').isSome = true at managed
      rw [gone] at managed
      cases managed

end Exit

end Starnet
