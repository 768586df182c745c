import Starnet.Netpack.Stream
import Starnet.Socket.Posts

/-! A service in the framed mode of `starnet.dispatch_socket`, and the socket engine it gets its
messages from. A connection is the `n`-th one that `accept` gave its descriptor to; every message
in the queue carries the number of the connection it is about. -/

namespace Starnet

namespace LuaNetpack.Queue

/-- `lclose`. -/
def lclose (q : Queue) (fd : Int32) : Queue := (q.findUncomplete fd).2

/-- The loop of `starnet.dispatch_socket` after a packet, when the handlers of the next `returns`
packets return or yield and that of the one after them raises an error; `none` if the loop does not
end within `fuel` rounds. -/
def popUntil : Nat → Nat → Queue → Option (List (Int32 × List UInt8) × Queue)
  | 0, _, _ => none
  | _ + 1, 0, q => some ([], q)
  | fuel + 1, returns + 1, q =>
    match q.lpop with
    | none => some ([], q)
    | some (packet, q) => (popUntil fuel returns q).map fun (packets, q) => (packet :: packets, q)

/-- The packets that are dispatched for one chunk, when the handlers of `returns` packets return or
yield and that of the next one raises an error. -/
def dispatchData (q : Queue) (fd : Int32) (chunk : List UInt8) (returns : Nat) :
    Option (List (Int32 × List UInt8) × Queue) :=
  match q.filterData fd chunk with
  | (.none, q) => some ([], q)
  | (.data fd msg, q) => some ([(fd, msg)], q)
  | (.more fd msg, q) =>
    (popUntil q.cap returns q).map fun (packets, q) => ((fd, msg) :: packets, q)

end LuaNetpack.Queue

namespace Framed

open Framing LuaNetpack Transition

/-- A message and the number of the connection it is about. -/
structure Mail where
  msg : SocketMsg
  conn : Nat

/-- `accepted` counts the connections that had a descriptor; `view`, `received`, `dispatched` and
`cut` are about the messages handled so far: the connection that a descriptor stands for, its
bytes, the packets dispatched for it, and whether a `CLOSE` dropped an incomplete packet of it. -/
structure State where
  engine : SocketServer
  accepted : Int32 → Nat
  inbox : List Mail
  queue : Queue
  view : Int32 → Nat
  received : Int32 → Nat → List UInt8
  dispatched : Int32 → Nat → List (List UInt8)
  cut : Int32 → Nat → Bool

namespace State

def initial : State :=
  ⟨.initial, fun _ => 0, [], .lcreate, fun _ => 0, fun _ _ => [], fun _ _ => [], fun _ _ => false⟩

def count (s : State) : SocketOp → Int32 → Nat
  | .accept _ fd => Function.update s.accepted fd (s.accepted fd + 1)
  | _ => s.accepted

/-- The messages that a step of the engine posts to service `me`. -/
def news (me : UInt32) (s : State) (op : SocketOp) (engine : SocketServer) : List Mail :=
  ((engine.posted.drop s.engine.posted.length).filter (·.2 = me)).map fun m =>
    ⟨m.1, s.count op m.1.fd⟩

/-- A step of the engine, seen from service `me`. -/
def relay (me : UInt32) (s : State) (op : SocketOp) (engine : SocketServer) : State :=
  { s with engine, accepted := s.count op, inbox := s.inbox ++ s.news me op engine }

/-- A packet is dispatched for the connection that its descriptor stands for. -/
def deliver (view : Int32 → Nat) (dispatched : Int32 → Nat → List (List UInt8))
    (packets : List (Int32 × List UInt8)) (fd : Int32) (n : Nat) : List (List UInt8) :=
  if n = view fd then dispatched fd n ++ ofFd fd packets else dispatched fd n

/-- `Service::OnSocketMsg` and `starnet.dispatch_socket` with a dispatch function for every
protocol. -/
def handle (s : State) (mail : Mail) (rest : List Mail) (returns : Nat) : Option State :=
  let fd := mail.msg.fd
  match mail.msg.subtype with
  | .accept => some { s with inbox := rest, view := Function.update s.view fd mail.conn }
  | .close => some { s with
      inbox := rest
      queue := s.queue.lclose fd
      cut := Function.update s.cut fd (Function.update (s.cut fd) (s.view fd)
        (s.cut fd (s.view fd) || (s.queue.findUncomplete fd).1.isSome)) }
  | .data =>
    (s.queue.dispatchData fd mail.msg.buff returns).map fun (packets, queue) => { s with
      inbox := rest
      queue
      received := Function.update s.received fd
        (Function.update (s.received fd) mail.conn (s.received fd mail.conn ++ mail.msg.buff))
      dispatched := deliver s.view s.dispatched packets }
  | _ => some { s with inbox := rest }

end State

/-- The calls and events that listen, accept, use and end connections. -/
def Serves : SocketOp → Prop
  | .openFd _ | .connect _ _ _ | .bind _ _ _ => False
  | _ => True

inductive Op
  | engine (op : SocketOp)
  | handle (returns : Nat)

inductive Step (me : UInt32) : State → Op → State → Prop
  | engine {s : State} {op : SocketOp} {engine : SocketServer}
      (step : SocketServer.Step s.engine op engine) (serves : Serves op) :
      Step me s (.engine op) (s.relay me op engine)
  | handle {s s' : State} {mail : Mail} {rest : List Mail} {returns : Nat}
      (queued : s.inbox = mail :: rest) (handles : s.handle mail rest returns = some s') :
      Step me s (.handle returns) s'

/-- The engine, and service `me` that handles its messages at any later time. -/
def service (me : UInt32) : System State Op where
  init s := s = .initial
  step := Step me

/-- An `ACCEPT` finds no incomplete packet of its descriptor; a chunk comes after no `CLOSE` that
dropped bytes of its connection, and no handler raises an error while packets of the chunk are
left. -/
def CleanStart (s : State) : Op → Prop
  | .engine _ => True
  | .handle returns => ∀ mail rest, s.inbox = mail :: rest →
    match mail.msg.subtype with
    | .accept => (s.queue.findUncomplete mail.msg.fd).1 = none
    | .data => s.cut mail.msg.fd mail.conn = false ∧
        (payloads readSize (s.queue.pending mail.msg.fd ++ mail.msg.buff)).length ≤ returns + 1
    | _ => True

end Framed

/-! ### Parsing -/

namespace LuaNetpack.Queue

open Framing

variable {q : Queue}

/-- The loop pops everything when no handler raises an error too early. -/
theorem popUntil_eq (bounds : q.InBounds) {fuel returns : Nat} (h : q.packets.length ≤ returns) :
    popUntil fuel returns q = popAll fuel q := by
  induction fuel generalizing q returns with
  | zero => rw [popUntil, popAll]
  | succ fuel ih =>
    have spec := lpop_spec bounds
    cases popped : q.lpop with
    | none => cases returns <;> simp only [popUntil, popAll, popped]
    | some result =>
      obtain ⟨packet, q'⟩ := result
      rw [popped] at spec
      obtain ⟨packets, bounds', -, -⟩ := spec
      rw [packets, List.length_cons] at h
      cases returns with
      | zero => omega
      | succ returns => simp only [popUntil, popAll, popped, ih bounds' (Nat.le_of_succ_le_succ h)]

theorem dispatchData_eq (valid : q.Valid) (empty : q.packets = []) {fd : Int32}
    {chunk : List UInt8} {returns : Nat}
    (h : (payloads readSize (q.pending fd ++ chunk)).length ≤ returns + 1) :
    q.dispatchData fd chunk returns = q.feed fd chunk := by
  have yields := filterData_yields valid fd chunk
  unfold dispatchData feed
  rcases filtered : q.filterData fd chunk with ⟨result, q'⟩
  rw [filtered] at yields
  cases result with
  | none | data => rfl
  | more fd' msg =>
    obtain ⟨rfl, msgs, parsed, receives⟩ := yields
    have short : q'.packets.length ≤ returns := by
      rw [receives.packets, empty, List.nil_append, List.length_map]
      rw [parsed, List.length_cons] at h
      omega
    simp only [popUntil_eq receives.valid.bounds short]

theorem findUncomplete_eq_none (valid : q.Valid) (fd : Int32) :
    (q.findUncomplete fd).1 = none ↔ q.pending fd = [] := by
  rcases findUncomplete_spec valid fd with ⟨found, pending⟩ | ⟨uc, q', found, -, -, pending, -⟩
  · simp only [found, pending]
  · simp only [found, pending, uc.bytes_ne_nil, reduceCtorEq]

theorem lclose_receives (valid : q.Valid) (fd : Int32) : q.Receives (q.lclose fd) fd [] [] := by
  unfold lclose
  rcases findUncomplete_spec valid fd with ⟨found, pending⟩ | ⟨uc, q', found, -, -, -, receives⟩
  · rw [found, ← pending]
    exact .refl valid fd
  · rw [found]
    exact receives

end LuaNetpack.Queue

namespace Framed

open Framing LuaNetpack Transition

/-! ### The order of the messages -/

/-- What a descriptor stands for after a message. -/
def receive (view : Int32 → Nat) (mail : Mail) : Int32 → Nat :=
  if mail.msg.subtype = .accept then Function.update view mail.msg.fd mail.conn else view

/-- Each `DATA` is about the connection that its descriptor stands for when it is handled, and each
`ACCEPT` about a later one. -/
def InTurn (view : Int32 → Nat) : List Mail → Prop
  | [] => True
  | mail :: rest =>
    (mail.msg.subtype = .data → mail.conn = view mail.msg.fd) ∧
      (mail.msg.subtype = .accept → view mail.msg.fd < mail.conn) ∧ InTurn (receive view mail) rest

theorem inTurn_append {view : Int32 → Nat} {inbox more : List Mail} :
    InTurn view (inbox ++ more) ↔ InTurn view inbox ∧ InTurn (inbox.foldl receive view) more := by
  induction inbox generalizing view with
  | nil => simp only [List.nil_append, InTurn, List.foldl_nil, true_and]
  | cons mail inbox ih => simp only [List.cons_append, InTurn, List.foldl_cons, ih, and_assoc]

/-- Messages that are no `ACCEPT`. -/
theorem inTurn_quiet {view : Int32 → Nat} {mails : List Mail}
    (h : ∀ mail ∈ mails, mail.msg.subtype ≠ .accept ∧
      (mail.msg.subtype = .data → mail.conn = view mail.msg.fd)) :
    InTurn view mails ∧ mails.foldl receive view = view := by
  induction mails with
  | nil => exact ⟨trivial, rfl⟩
  | cons mail mails ih =>
    obtain ⟨other, data⟩ := h mail (List.mem_cons_self ..)
    have same : receive view mail = view := if_neg other
    have rest := ih fun mail mem => h mail (List.mem_cons_of_mem _ mem)
    rw [InTurn, List.foldl_cons, same]
    exact ⟨⟨data, fun accept => absurd accept other, rest.1⟩, rest.2⟩

/-- What a descriptor stands for when every message in the queue is handled. -/
def State.viewAfter (s : State) : Int32 → Nat := s.inbox.foldl receive s.view

/-- The messages of service `me` follow the connections of the engine. -/
structure Told (me : UInt32) (s : State) : Prop where
  managed : ∀ fd, (s.engine.slot fd).Managed
  turn : InTurn s.view s.inbox
  current : ∀ fd conn, s.engine.conns fd = some conn → conn.serviceId = me → conn.type ≠ .listen →
    s.viewAfter fd = s.accepted fd
  bound : ∀ fd, s.viewAfter fd ≤ s.accepted fd

variable {me : UInt32} {s s' : State} {op : SocketOp} {engine : SocketServer}

/-- A step of the engine on connections that it has. -/
theorem Told.works (h : Told me s) (works : SocketServer.Works s.engine engine)
    (managed : ∀ fd, (engine.slot fd).Managed) (count : s.count op = s.accepted) :
    Told me (s.relay me op engine) := by
  obtain ⟨new, posted, fits⟩ := works.posted
  have fresh : ∀ mail ∈ s.news me op engine, mail.msg.subtype ≠ .accept ∧
        (mail.msg.subtype = .data → mail.conn = s.viewAfter mail.msg.fd) := by
    intro mail mem
    rw [State.news, posted, List.drop_left] at mem
    obtain ⟨m, posts, rfl⟩ := List.mem_map.mp mem
    obtain ⟨posts, mine⟩ := List.mem_filter.mp posts
    refine ⟨(fits m posts).1, fun data => ?_⟩
    obtain ⟨conn, managed, service, type⟩ := (fits m posts).2 data
    rw [count]
    exact (h.current _ conn managed (service.trans (of_decide_eq_true mine)) type).symm
  have quiet := inTurn_quiet fresh
  have view : (s.relay me op engine).viewAfter = s.viewAfter := by
    rw [State.viewAfter, State.relay, List.foldl_append]
    exact quiet.2
  refine ⟨managed, inTurn_append.mpr ⟨h.turn, quiet.1⟩, ?_, ?_⟩
  · intro fd conn' managed' service type
    obtain ⟨conn, managed, service', type'⟩ := works.conns fd conn' managed'
    rw [view]
    exact (h.current fd conn managed (service'.trans service) (type' ▸ type)).trans
      (congrFun count fd).symm
  · intro fd
    rw [view]
    exact (h.bound fd).trans_eq (congrFun count fd).symm

/-- A descriptor that is not open is not managed. -/
theorem Told.unmanaged (h : Told me s) {fd : Int32} (free : s.engine.sockets fd = none) :
    s.engine.conns fd = none := by
  by_contra conn
  obtain ⟨k, socket, -⟩ := (h.managed fd).registered (Option.isSome_iff_ne_none.mpr conn)
  rw [SocketServer.slot_socket, free] at socket
  cases socket

theorem Told.listen (h : Told me s) {fd : Int32} {serviceId : UInt32}
    (free : s.engine.sockets fd = none)
    (managed : ∀ fd', ((s.engine.listen fd serviceId).slot fd').Managed) :
    Told me (s.relay me (.listen fd serviceId) (s.engine.listen fd serviceId)) := by
  have conns : (s.engine.listen fd serviceId).conns =
      Function.update s.engine.conns fd (some { type := .listen, serviceId }) := by
    simp [SocketServer.listen, SocketServer.addConn, h.unmanaged free, SocketServer.addEvent,
      SocketServer.epollAdd, SocketServer.setConn]
  have posted : (s.engine.listen fd serviceId).posted = s.engine.posted := by
    simp [SocketServer.listen, SocketServer.addConn, h.unmanaged free, SocketServer.addEvent,
      SocketServer.epollAdd, SocketServer.setConn, SocketServer.setSocket]
  have inbox : (s.relay me (.listen fd serviceId) (s.engine.listen fd serviceId)).inbox = s.inbox := by
    simp [State.relay, State.news, posted]
  refine ⟨managed, inbox ▸ h.turn, fun fd' conn managed' service type => ?_, fun fd' => ?_⟩
  · rw [State.viewAfter, inbox]
    simp only [State.relay, conns] at managed'
    by_cases same : fd' = fd
    · rw [same, Function.update_self] at managed'
      cases managed'
      exact absurd rfl type
    · rw [Function.update_of_ne same] at managed'
      exact h.current fd' conn managed' service type
  · rw [State.viewAfter, inbox]
    exact h.bound fd'

theorem Told.accept (h : Told me s) {listenFd fd : Int32} {serviceId : UInt32}
    (free : s.engine.sockets fd = none)
    (managed : ∀ fd', ((s.engine.onAccept listenFd fd serviceId).slot fd').Managed) :
    Told me (s.relay me (.accept listenFd fd) (s.engine.onAccept listenFd fd serviceId)) := by
  have conns : (s.engine.onAccept listenFd fd serviceId).conns =
      Function.update s.engine.conns fd (some { type := .client, serviceId }) := by
    simp [SocketServer.onAccept, SocketServer.addConn, h.unmanaged free, SocketServer.epollAdd,
      SocketServer.setConn, SocketServer.post]
  have posted : (s.engine.onAccept listenFd fd serviceId).posted = s.engine.posted ++
      [({ SocketServer.socketMsg .accept fd with listenFd := listenFd }, serviceId)] := by
    simp [SocketServer.onAccept, SocketServer.addConn, h.unmanaged free, SocketServer.epollAdd,
      SocketServer.setConn, SocketServer.post, SocketServer.setSocket]
  set s' := s.relay me (.accept listenFd fd) (s.engine.onAccept listenFd fd serviceId) with relayed
  have accepted : s'.accepted = Function.update s.accepted fd (s.accepted fd + 1) := rfl
  by_cases mine : serviceId = me
  · have inbox : s'.inbox = s.inbox ++ [⟨{ SocketServer.socketMsg .accept fd with
        listenFd := listenFd }, s.accepted fd + 1⟩] := by
      subst mine
      simp [relayed, State.relay, State.news, posted, State.count, SocketServer.socketMsg]
    have view : s'.viewAfter = Function.update s.viewAfter fd (s.accepted fd + 1) := by
      rw [State.viewAfter, inbox, List.foldl_append]
      rfl
    refine ⟨managed, ?_, fun fd' conn managed' service type => ?_, fun fd' => ?_⟩
    · rw [inbox]
      have later : s.viewAfter fd < s.accepted fd + 1 := Nat.lt_succ_of_le (h.bound fd)
      exact inTurn_append.mpr ⟨h.turn, by rintro ⟨⟩, fun _ => later, trivial⟩
    · rw [view, accepted]
      by_cases same : fd' = fd
      · rw [same, Function.update_self, Function.update_self]
      · simp only [relayed, State.relay, conns, Function.update_of_ne same] at managed'
        rw [Function.update_of_ne same, Function.update_of_ne same]
        exact h.current fd' conn managed' service type
    · rw [view, accepted]
      by_cases same : fd' = fd
      · rw [same, Function.update_self, Function.update_self]
      · rw [Function.update_of_ne same, Function.update_of_ne same]
        exact h.bound fd'
  · have inbox : s'.inbox = s.inbox := by
      simp [relayed, State.relay, State.news, posted, mine]
    refine ⟨managed, inbox ▸ h.turn, fun fd' conn managed' service type => ?_, fun fd' => ?_⟩
    · rw [State.viewAfter, inbox, accepted]
      by_cases same : fd' = fd
      · simp only [relayed, State.relay, conns, same, Function.update_self] at managed'
        cases managed'
        exact absurd service mine
      · simp only [relayed, State.relay, conns, Function.update_of_ne same] at managed'
        rw [Function.update_of_ne same]
        exact h.current fd' conn managed' service type
    · rw [State.viewAfter, inbox, accepted]
      by_cases same : fd' = fd
      · rw [same, Function.update_self]
        exact Nat.le_succ_of_le (h.bound fd)
      · rw [Function.update_of_ne same]
        exact h.bound fd'

theorem Told.step (h : Told me s) (step : SocketServer.Step s.engine op engine)
    (serves : Serves op) : Told me (s.relay me op engine) := by
  have managed : ∀ fd, (engine.slot fd).Managed := fun fd =>
    (SocketServer.step_slots (P := fun _ => True) (I := fun _ => True) step
      (fun _ _ _ _ _ => trivial) (fun _ => trivial) (fun fd => ⟨h.managed fd, trivial⟩) fd).1
  cases step with
  | openFd | connect | bind => cases serves
  | listen free => exact h.listen free managed
  | accept listener type free => exact h.accept free managed
  | sendBuffer => exact h.works (SocketServer.sendBuffer_works ..) managed rfl
  | @onRW fd r w answers conn known type =>
    refine h.works (SocketServer.onRW_works fun conn' known' => ?_) managed rfl
    cases known.symm.trans known'
    exact type
  | pauseRead | resumeRead => exact h.works (SocketServer.setPaused_works ..) managed rfl
  | lingerClose => exact h.works (SocketServer.lingerClose_works ..) managed rfl
  | closeConn => exact h.works (SocketServer.closeConn_works ..) managed rfl

/-! ### Handling -/

/-- Handling a message takes it off the queue, and changes what descriptors stand for as it says. -/
theorem handle_view {mail : Mail} {rest : List Mail} {returns : Nat}
    (handles : s.handle mail rest returns = some s') :
    s'.engine = s.engine ∧ s'.accepted = s.accepted ∧ s'.inbox = rest ∧
      s'.view = receive s.view mail := by
  unfold State.handle at handles
  unfold receive
  rcases subtype : mail.msg.subtype with _ | _ | _ | _ | _ | _ | _ <;>
    simp only [subtype] at handles
  · obtain ⟨result, -, rfl⟩ := Option.map_eq_some_iff.mp handles
    exact ⟨rfl, rfl, rfl, rfl⟩
  all_goals
    cases handles
    exact ⟨rfl, rfl, rfl, rfl⟩

theorem Told.handle (h : Told me s) {mail : Mail} {rest : List Mail} {returns : Nat}
    (queued : s.inbox = mail :: rest) (handles : s.handle mail rest returns = some s') :
    Told me s' := by
  obtain ⟨engine, accepted, inbox, view⟩ := handle_view handles
  have turn := h.turn
  rw [queued] at turn
  have after : s'.viewAfter = s.viewAfter := by
    rw [State.viewAfter, State.viewAfter, inbox, view, queued, List.foldl_cons]
  refine ⟨engine ▸ h.managed, ?_, ?_, ?_⟩
  · rw [inbox, view]
    exact turn.2.2
  · rw [engine, after, accepted]
    exact h.current
  · rw [after, accepted]
    exact h.bound

/-- The queue of packets is empty, and the incomplete packet of a descriptor is what is left over
of the bytes of its connection. -/
structure Parsed (s : State) : Prop where
  valid : s.queue.Valid
  ring : s.queue.packets = []
  frames : ∀ fd n, s.dispatched fd n = payloads readSize (s.received fd n)
  pending : ∀ fd, s.cut fd (s.view fd) = false →
    s.queue.pending fd = leftover readSize (s.received fd (s.view fd))
  fresh : ∀ fd n, s.view fd < n → s.received fd n = [] ∧ s.cut fd n = false

theorem deliver_other {view : Int32 → Nat} {dispatched : Int32 → Nat → List (List UInt8)} {fd fd' : Int32}
    (other : fd' ≠ fd) (msgs : List (List UInt8)) (n : Nat) :
    State.deliver view dispatched (msgs.map fun msg => (fd, msg)) fd' n = dispatched fd' n := by
  rw [State.deliver, ofFd_map_other (Ne.symm other), List.append_nil, ite_self]

namespace Parsed

variable {mail : Mail} {rest : List Mail} {returns : Nat}

theorem initial : Parsed .initial :=
  ⟨Queue.lcreate_valid, rfl, fun _ _ => (congrArg Prod.fst parse_nil).symm,
    fun _ _ => (congrArg Prod.snd parse_nil).symm, fun _ _ _ => ⟨rfl, rfl⟩⟩

/-- A new connection has no bytes, and no incomplete packet is found for it. -/
theorem accept (h : Parsed s) (later : s.view mail.msg.fd < mail.conn)
    (clean : (s.queue.findUncomplete mail.msg.fd).1 = none) :
    Parsed { s with inbox := rest, view := Function.update s.view mail.msg.fd mail.conn } := by
  refine ⟨h.valid, h.ring, h.frames, fun fd kept => ?_, fun fd n after => ?_⟩
  · by_cases same : fd = mail.msg.fd
    · subst same
      simp only [Function.update_self]
      rw [(h.fresh _ _ later).1, (Queue.findUncomplete_eq_none h.valid _).mp clean, leftover, parse_nil]
    · simp only [Function.update_of_ne same] at kept ⊢
      exact h.pending fd kept
  · by_cases same : fd = mail.msg.fd
    · subst same
      simp only [Function.update_self] at after
      exact h.fresh _ n (later.trans after)
    · simp only [Function.update_of_ne same] at after
      exact h.fresh fd n after

theorem close (h : Parsed s) : Parsed { s with
    inbox := rest
    queue := s.queue.lclose mail.msg.fd
    cut := Function.update s.cut mail.msg.fd (Function.update (s.cut mail.msg.fd)
      (s.view mail.msg.fd) (s.cut mail.msg.fd (s.view mail.msg.fd) ||
        (s.queue.findUncomplete mail.msg.fd).1.isSome)) } := by
  have closed := Queue.lclose_receives h.valid mail.msg.fd
  refine ⟨closed.valid, by rw [closed.packets, h.ring]; rfl, h.frames, fun fd kept => ?_,
    fun fd n after => ?_⟩
  · by_cases same : fd = mail.msg.fd
    · subst same
      simp only [Function.update_self, Bool.or_eq_false_iff, Option.isSome_eq_false_iff,
        Option.isNone_iff_eq_none] at kept
      rw [closed.pending, ← h.pending _ kept.1]
      exact ((Queue.findUncomplete_eq_none h.valid _).mp kept.2).symm
    · simp only [Function.update_of_ne same] at kept
      rw [closed.others fd same]
      exact h.pending fd kept
  · by_cases same : fd = mail.msg.fd
    · subst same
      simp only [Function.update_self, Function.update_of_ne (Nat.ne_of_gt after)]
      exact h.fresh _ n after
    · simp only [Function.update_of_ne same]
      exact h.fresh fd n after

/-- A chunk of the connection that its descriptor stands for. -/
theorem data (h : Parsed s) (mine : mail.conn = s.view mail.msg.fd)
    (kept : s.cut mail.msg.fd mail.conn = false) {queue : Queue}
    (receives : s.queue.Receives queue mail.msg.fd []
      (leftover readSize (s.queue.pending mail.msg.fd ++ mail.msg.buff)))
    (ring : queue.packets = []) :
    Parsed { s with
      inbox := rest
      queue
      received := Function.update s.received mail.msg.fd (Function.update (s.received mail.msg.fd)
        mail.conn (s.received mail.msg.fd mail.conn ++ mail.msg.buff))
      dispatched := State.deliver s.view s.dispatched
        ((payloads readSize (s.queue.pending mail.msg.fd ++ mail.msg.buff)).map fun msg =>
          (mail.msg.fd, msg)) } := by
  have pending := h.pending mail.msg.fd (mine ▸ kept)
  rw [← mine] at pending
  refine ⟨receives.valid, ring, fun fd n => ?_, fun fd uncut => ?_, fun fd n after => ?_⟩
  · dsimp only
    by_cases same : fd = mail.msg.fd
    · subst same
      rw [Function.update_self, State.deliver, ofFd_map_same]
      by_cases own : n = mail.conn
      · subst own
        rw [if_pos mine, Function.update_self, h.frames, pending, ← payloads_append]
      · rw [if_neg (mine ▸ own), Function.update_of_ne own]
        exact h.frames _ n
    · rw [deliver_other same, Function.update_of_ne same]
      exact h.frames fd n
  · by_cases same : fd = mail.msg.fd
    · subst same
      simp only [Function.update_self, ← mine]
      rw [receives.pending, pending, ← leftover_append]
    · simp only [Function.update_of_ne same]
      rw [receives.others fd same]
      exact h.pending fd uncut
  · by_cases same : fd = mail.msg.fd
    · subst same
      have other : n ≠ mail.conn := mine ▸ Nat.ne_of_gt after
      simp only [Function.update_self, Function.update_of_ne other]
      exact h.fresh _ n after
    · simp only [Function.update_of_ne same]
      exact h.fresh fd n after

theorem handle (h : Parsed s) (told : Told me s) (queued : s.inbox = mail :: rest)
    (clean : CleanStart s (.handle returns)) (handles : s.handle mail rest returns = some s') :
    Parsed s' := by
  have turn := told.turn
  rw [queued] at turn
  have clean := clean mail rest queued
  unfold State.handle at handles
  rcases subtype : mail.msg.subtype with _ | _ | _ | _ | _ | _ | _ <;>
    simp only [subtype] at handles clean
  case data =>
    obtain ⟨queue, fed, ring, receives⟩ := Queue.feed_spec h.valid h.ring mail.msg.fd mail.msg.buff
    rw [Queue.dispatchData_eq h.valid h.ring clean.2, fed] at handles
    cases handles
    exact h.data (turn.1 subtype) clean.1 receives ring
  case close =>
    cases handles
    exact h.close
  case accept =>
    cases handles
    exact h.accept (turn.2.1 subtype) clean
  all_goals
    cases handles
    exact ⟨h.valid, h.ring, h.frames, h.pending, h.fresh⟩

end Parsed

/-- Handling a message always ends. -/
theorem exists_handle (h : Parsed s) {mail : Mail} {rest : List Mail} {returns : Nat}
    (queued : s.inbox = mail :: rest) (clean : CleanStart s (.handle returns)) :
    ∃ s', s.handle mail rest returns = some s' := by
  have clean := clean mail rest queued
  unfold State.handle
  rcases subtype : mail.msg.subtype with _ | _ | _ | _ | _ | _ | _ <;> simp only [subtype] at clean
  case data =>
    obtain ⟨queue, fed, -, -⟩ := Queue.feed_spec h.valid h.ring mail.msg.fd mail.msg.buff
    simp only [Queue.dispatchData_eq h.valid h.ring clean.2, fed]
    exact ⟨_, rfl⟩
  all_goals exact ⟨_, rfl⟩

/-! ### Whole runs -/

theorem told_initial : Told me .initial :=
  ⟨fun _ => Slot.Managed.initial, trivial, fun _ _ => nofun, fun _ => Nat.le_refl _⟩

/-- In a run in which every connection starts clean, the packets of every connection are the frames
of its bytes, and the next message can be handled. -/
theorem frames_of_cleanStart {tr : List Op} (run : ((service me).restrict CleanStart).Run s tr) :
    (∀ fd n, s.dispatched fd n = payloads readSize (s.received fd n)) ∧
      ∀ mail rest returns, s.inbox = mail :: rest → CleanStart s (.handle returns) →
        ∃ s', s.handle mail rest returns = some s' := by
  have inv : Told me s ∧ Parsed s := by
    refine run.stateInvariant (P := fun s => Told me s ∧ Parsed s) ?_ ?_
    · rintro _ rfl
      exact ⟨told_initial, .initial⟩
    · rintro s op s' ⟨told, parsed⟩ ⟨step, clean⟩
      cases step with
      | engine step serves =>
        exact ⟨told.step step serves,
          parsed.valid, parsed.ring, parsed.frames, parsed.pending, parsed.fresh⟩
      | handle queued handles =>
        exact ⟨told.handle queued handles, parsed.handle told queued clean handles⟩
  exact ⟨inv.2.frames, fun mail rest returns => exists_handle inv.2⟩

/-- One packet each of two connections that the service closes, on descriptor 5. -/
theorem frames_reused : ∃ s : State, s.dispatched 5 1 = [[7]] ∧ s.dispatched 5 2 = [[8]] ∧
    ∀ fd n, s.dispatched fd n = payloads readSize (s.received fd n) := by
  have accepts : ∀ (s : State) (mail : Mail) (rest : List Mail) (returns : Nat),
      s.inbox = mail :: rest → mail.msg.subtype = .accept →
      (s.queue.findUncomplete mail.msg.fd).1 = none → CleanStart s (.handle returns) := by
    intro s mail rest returns queued subtype clean mail' rest' queued'
    cases queued.symm.trans queued'
    rw [subtype]
    exact clean
  have chunk : ∀ (s : State) (mail : Mail) (rest : List Mail) (b : UInt8),
      s.inbox = mail :: rest → mail.msg.subtype = .data → s.cut mail.msg.fd mail.conn = false →
      s.queue.pending mail.msg.fd ++ mail.msg.buff = [0, 1, b] → CleanStart s (.handle 0) := by
    intro s mail rest b queued subtype kept bytes mail' rest' queued'
    cases queued.symm.trans queued'
    rw [subtype]
    refine ⟨kept, ?_⟩
    rw [bytes]
    simp [payloads, parse, readSize]
  have h0 : ((service 9).restrict CleanStart).Run .initial [] := .init rfl
  have h1 := h0.step (a := Op.engine (.listen 3 9)) ⟨.engine (.listen rfl) trivial, trivial⟩
  have h2 := h1.step (a := Op.engine (.accept 3 5)) ⟨.engine (.accept rfl rfl rfl) trivial, trivial⟩
  have h3 := h2.step (a := Op.handle 0) ⟨.handle rfl rfl, accepts _ _ _ _ rfl rfl rfl⟩
  have h4 := h3.step (a := Op.engine (.onRW 5 true false { reads := [.data [0, 1, 7]] }))
    ⟨.engine (.onRW rfl (by rintro ⟨⟩)) trivial, trivial⟩
  have h5 := h4.step (a := Op.handle 0) ⟨.handle rfl rfl, chunk _ _ _ 7 rfl rfl rfl rfl⟩
  have h6 := h5.step (a := Op.engine (.closeConn 5)) ⟨.engine (.closeConn ..) trivial, trivial⟩
  have h7 := h6.step (a := Op.engine (.accept 3 5)) ⟨.engine (.accept rfl rfl rfl) trivial, trivial⟩
  have h8 := h7.step (a := Op.handle 0) ⟨.handle rfl rfl, accepts _ _ _ _ rfl rfl rfl⟩
  have h9 := h8.step (a := Op.engine (.onRW 5 true false { reads := [.data [0, 1, 8]] }))
    ⟨.engine (.onRW rfl (by rintro ⟨⟩)) trivial, trivial⟩
  have h10 := h9.step (a := Op.handle 0) ⟨.handle rfl rfl, chunk _ _ _ 8 rfl rfl rfl rfl⟩
  exact ⟨_, rfl, rfl, (frames_of_cleanStart h10).1⟩

/-- A connection that the service closes leaves one byte, and the next one on its descriptor gets a
packet that it did not send. -/
theorem not_frames_closed : ¬∀ (me : UInt32) (s : State) (tr : List Op), (service me).Run s tr →
    ∀ fd n, s.dispatched fd n = payloads readSize (s.received fd n) := by
  intro claim
  have h0 : (service 9).Run .initial [] := .init rfl
  have h1 := h0.step (a := Op.engine (.listen 3 9)) (.engine (.listen rfl) trivial)
  have h2 := h1.step (a := Op.engine (.accept 3 5)) (.engine (.accept rfl rfl rfl) trivial)
  have h3 := h2.step (a := Op.handle 0) (.handle rfl rfl)
  have h4 := h3.step (a := Op.engine (.onRW 5 true false { reads := [.data [0]] }))
    (.engine (.onRW rfl (by rintro ⟨⟩)) trivial)
  have h5 := h4.step (a := Op.handle 0) (.handle rfl rfl)
  have h6 := h5.step (a := Op.engine (.closeConn 5)) (.engine (.closeConn ..) trivial)
  have h7 := h6.step (a := Op.engine (.accept 3 5)) (.engine (.accept rfl rfl rfl) trivial)
  have h8 := h7.step (a := Op.handle 0) (.handle rfl rfl)
  have h9 := h8.step (a := Op.engine (.onRW 5 true false { reads := [.data [1, 9]] }))
    (.engine (.onRW rfl (by rintro ⟨⟩)) trivial)
  have h10 := h9.step (a := Op.handle 0) (.handle rfl rfl)
  have frames : [[9]] = payloads readSize [1, 9] := claim 9 _ _ h10 5 2
  simp [payloads, parse, readSize] at frames

end Framed

end Starnet
