import Starnet.Socket.Messages

/-! The order of the messages of a connection. `OnAccept` runs on the thread that reads, so that
`ACCEPT` is posted before anything is read. `Connect` runs on a worker, and its connection is in
`conns` before `CONNECT` is posted, or before it is marked as one that is being made. -/

namespace Starnet

/-- The operation introduces its connection. -/
def SocketOp.accepts : SocketOp → Bool
  | .accept .. => true
  | _ => false

namespace Introduction

open SocketServer (socketMsg opFd)

/-- A posted message, with the connection it is about and the service it is for. -/
structure Entry where
  conn : Nat
  msg : SocketMsg
  serviceId : UInt32
  deriving DecidableEq, Repr

/-- A call of `Connect` that has a socket: `ip` is the address of an immediate success. -/
structure Dial where
  fd : Int32
  conn : Nat
  serviceId : UInt32
  ip : Option (List UInt8)
  deriving DecidableEq, Repr

/-- Where a thread is in `Connect`. `GetConn` may find another connection than the one that was
added. -/
inductive Stage
  | idle
  | opened (d : Dial)
  | added (d : Dial)
  | found (d : Dial) (target : Option Nat)
  | marked (d : Dial)
  | registered (d : Dial)
  deriving DecidableEq, Repr

namespace Stage

def dial : Stage → Option Dial
  | idle => none
  | opened d | added d | found d _ | marked d | registered d => some d

/-- The connection is in `conns`, and it is neither introduced nor marked as one that is being
made. -/
def pending : Stage → Option Dial
  | added d | found d _ => some d
  | marked d | registered d => if d.ip.isSome then some d else none
  | _ => none

end Stage

/-- The engine, with the threads that are in `Connect`. The connections are numbered: `ids` are
those in `conns`, `introduces` holds of those that `OnAccept` or `Connect` has made, and `log` are
the posted messages. -/
structure Engine (ι : Type) where
  server : SocketServer
  threads : ι → Stage
  ids : Int32 → Nat
  next : Nat
  introduces : Nat → Bool
  log : List Entry

/-- A call other than `Connect` or an event of the engine, the start of a `Connect`, and a step of
one. -/
inductive Move (ι : Type)
  | engine (op : SocketOp)
  | connect (t : ι) (fd : Int32) (serviceId : UInt32) (ip : Option (List UInt8))
  | run (t : ι)

namespace Engine

variable {ι : Type} [DecidableEq ι]

def initial : Engine ι := ⟨.initial, fun _ => .idle, fun _ => 0, 0, fun _ => false, []⟩

def setThread (e : Engine ι) (t : ι) (stage : Stage) : Engine ι :=
  { e with threads := Function.update e.threads t stage }

/-- The engine does an operation that leaves it as `server`. -/
def become (e : Engine ι) (op : SocketOp) (server : SocketServer) : Engine ι :=
  let fresh := (e.server.conns (opFd op)).isNone && (server.conns (opFd op)).isSome
  let ids := if fresh then Function.update e.ids (opFd op) e.next else e.ids
  { e with
    server
    ids
    next := e.next + 1
    introduces := Function.update e.introduces e.next op.accepts
    log := e.log ++ (server.posted.drop e.server.posted.length).map fun m =>
      ⟨ids m.1.fd, m.1, m.2⟩ }

/-- A step of `Connect`. -/
def run (e : Engine ι) (t : ι) : Engine ι :=
  match e.threads t with
  | .idle => e
  | .opened d =>
    let conn : Conn := { type := .client, serviceId := d.serviceId }
    { e.setThread t (.added d) with
      server := e.server.addConn d.fd conn
      ids := if (e.server.conns d.fd).isSome then e.ids else Function.update e.ids d.fd d.conn }
  | .added d =>
    e.setThread t (.found d ((e.server.conns d.fd).map fun _ => e.ids d.fd))
  | .found d target =>
    { e.setThread t (.marked d) with
      server := if target = some (e.ids d.fd) then
          e.server.modConn d.fd fun conn => { conn with connecting := d.ip.isNone }
        else e.server }
  | .marked d => { e.setThread t (.registered d) with server := e.server.addEvent d.fd }
  | .registered d =>
    match d.ip with
    | some ip =>
      let msg := { socketMsg .connect d.fd with buff := ip }
      { e.setThread t .idle with
        server := e.server.post msg d.serviceId
        log := e.log ++ [⟨d.conn, msg, d.serviceId⟩] }
    | none => { e.setThread t .idle with server := e.server.modifyEvent d.fd true }

/-- The steps of the engine. The kernel gives only descriptors that are not open. -/
inductive Step : Engine ι → Move ι → Engine ι → Prop
  | engine {e : Engine ι} {op server} (step : e.server.Step op server)
      (other : ∀ fd serviceId ip, op ≠ .connect fd serviceId ip) :
      Step e (.engine op) (e.become op server)
  | connect {e : Engine ι} {t fd serviceId ip} (idle : e.threads t = .idle)
      (free : e.server.sockets fd = none) :
      Step e (.connect t fd serviceId ip)
        { e.setThread t (.opened ⟨fd, e.next, serviceId, ip⟩) with
          server := e.server.setSocket fd (some {})
          next := e.next + 1
          introduces := Function.update e.introduces e.next true }
  | run (e : Engine ι) (t : ι) : Step e (.run t) (e.run t)

/-- The messages of a service, in the order of its queue. -/
def queue (e : Engine ι) (serviceId : UInt32) : List Entry :=
  e.log.filter (·.serviceId = serviceId)

/-- In every queue the `ACCEPT` or the `CONNECT` of a connection that `OnAccept` or `Connect` has
made comes before its `DATA` and `CLOSE`. -/
def Introduced (e : Engine ι) : Prop :=
  ∀ serviceId before m after, e.queue serviceId = before ++ m :: after →
    e.introduces m.conn = true → (m.msg.subtype = .data ∨ m.msg.subtype = .close) →
    ∃ m' ∈ before, m'.conn = m.conn ∧ (m'.msg.subtype = .accept ∨ m'.msg.subtype = .connect)

end Engine

/-- An event of an established connection has nothing to report: nothing to read, and no close to
finish. -/
def Silent (s : SocketServer) (fd : Int32) (conn : Conn) (r w : Bool) (answers : Answers) : Prop :=
  (r = true → conn.paused = true ∨ answers.reads.headD .eagain = .eagain ∨
    answers.reads.headD .eagain = .eintr) ∧
  (w = true → (s.writeBuffers fd).any ConnWriteBuffer.isClosing = false)

namespace Engine

variable {ι : Type} [DecidableEq ι]

/-- No event is reported of a connection that `Connect` has put into `conns` and neither introduced
nor marked, and a `Connect` that succeeds at once unmarks no other connection that is being made.
-/
def InOrder (e : Engine ι) : Move ι → Prop
  | .engine (.onRW fd r w answers) => ∀ t d conn, (e.threads t).pending = some d → d.fd = fd →
      d.conn = e.ids fd → e.server.conns fd = some conn → conn.connecting = false →
      Silent e.server fd conn r w answers
  | .run t => ∀ d target, e.threads t = .found d target → d.ip.isSome = true →
      target = some (e.ids d.fd) → d.conn ≠ e.ids d.fd →
      e.server.connHas d.fd Conn.connecting = false
  | _ => True

end Engine

/-- The engine from its start. -/
def engine (ι : Type) [DecidableEq ι] : Transition.System (Engine ι) (Move ι) where
  init e := e = .initial
  step := Engine.Step

end Introduction

/-! ### What an operation posts -/

namespace SocketServer

variable {s s' : SocketServer} {fd : Int32} {conn : Conn}

/-- An operation that posts neither `DATA` nor `CLOSE`. It keeps a connection, or makes one that it
introduces if it is `OnAccept`. -/
structure Minor (s s' : SocketServer) (fd : Int32) (accepts : Bool) : Prop where
  posted : ∃ new, s'.posted = s.posted ++ new ∧
    (∀ m ∈ new, m.1.subtype ≠ .data ∧ m.1.subtype ≠ .close) ∧
    ∀ conn', s'.conns fd = some conn' →
      (∃ conn, s.conns fd = some conn ∧ conn'.serviceId = conn.serviceId ∧
        conn'.connecting = conn.connecting) ∨
      s.conns fd = none ∧ (accepts = true → ∃ m ∈ new, m.1.subtype = .accept ∧ m.1.fd = fd ∧
        m.2 = conn'.serviceId)

theorem Tells.minor {serviceId : UInt32} (h : Tells s s' fd serviceId) (posted : s'.posted = s.posted)
    (accepts : Bool) : Minor s s' fd accepts :=
  ⟨[], by rw [posted, List.append_nil], nofun, fun conn' managed => Or.inl (h.conns conn' managed)⟩

/-- A new connection that no message introduces. -/
theorem Minor.opened (unmanaged : s.conns fd = none) (posted : s'.posted = s.posted) :
    Minor s s' fd false :=
  ⟨[], by rw [posted, List.append_nil], nofun, fun _ _ => Or.inr ⟨unmanaged, nofun⟩⟩

/-- `AddConn` without a message. -/
theorem Minor.added (posted : s'.posted = s.posted)
    (conns : s'.conns fd = some ((s.conns fd).getD conn)) : Minor s s' fd false := by
  cases managed : s.conns fd with
  | some conn' =>
    refine ⟨[], by rw [posted, List.append_nil], nofun, fun conn₁ managed₁ => Or.inl ?_⟩
    rw [conns, managed] at managed₁
    cases managed₁
    exact ⟨conn', managed, rfl, rfl⟩
  | none => exact .opened managed posted

/-- `AddConn` keeps a connection that there is. -/
theorem addConn_conns (conn : Conn) (s : SocketServer) (fd : Int32) :
    (s.addConn fd conn).conns fd = some ((s.conns fd).getD conn) := by
  unfold addConn
  cases managed : s.conns fd with
  | some conn' => exact managed
  | none => exact conns_setConn ..

theorem onAccept_minor (listenFd fd : Int32) (serviceId : UInt32) :
    Minor s (s.onAccept listenFd fd serviceId) fd true := by
  refine ⟨[_], congrArg (· ++ [_]) (posted_addConn _), fun m mem => ?_, fun conn' managed' => ?_⟩
  · rw [List.mem_singleton.mp mem]
    exact ⟨by nofun, by nofun⟩
  · have conns : (s.onAccept listenFd fd serviceId).conns fd =
        some ((s.conns fd).getD { type := .client, serviceId }) :=
      addConn_conns _ (s.setSocket fd (some {})) fd
    cases managed : s.conns fd with
    | some conn =>
      rw [conns, managed] at managed'
      cases managed'
      exact Or.inl ⟨conn, rfl, rfl, rfl⟩
    | none =>
      rw [conns, managed] at managed'
      cases managed'
      exact Or.inr ⟨rfl, fun _ => ⟨_, List.mem_singleton_self _, rfl, rfl, rfl⟩⟩

theorem flush_isClosing (wb : ConnWriteBuffer) (io : WriteIo) :
    (wb.flush io).1.isClosing = wb.isClosing := by
  unfold ConnWriteBuffer.flush
  rfl

/-- `OnWriteable` on a connection that is not closing. -/
theorem onWriteable_open {writes : List WriteOutcome} (managed : s.conns fd = some conn)
    (open_ : (s.writeBuffers fd).any ConnWriteBuffer.isClosing = false) :
    (s.onWriteable fd writes).posted = s.posted ∧
      ∃ calls, (s.onWriteable fd writes).conns fd = some { conn with calls } := by
  unfold onWriteable
  rw [managed]
  dsimp only
  cases buffer : s.writeBuffers fd with
  | none =>
    simp only [flushWriteable, buffer, finishWriteable, Bool.false_eq_true, if_false, true_and]
    exact ⟨conn.calls, managed⟩
  | some wb =>
    rw [buffer, Option.any_some] at open_
    have closing := flush_isClosing wb ⟨writes, conn.calls⟩
    rw [open_] at closing
    simp only [flushWriteable, buffer, finishWriteable, closing, Bool.and_false, Bool.false_eq_true,
      if_false]
    split <;> exact ⟨rfl, _, conns_setConn ..⟩

theorem readUdp_posted (s : SocketServer) (fd : Int32) (serviceId : UInt32)
    (outcomes : List RecvOutcome) : ∃ new, (s.readUdp fd serviceId outcomes).posted = s.posted ++ new ∧
      ∀ m ∈ new, m.1.subtype = .udp := by
  fun_induction readUdp s fd serviceId outcomes with
  | case1 s payload udpAddr outcomes buff h ih =>
    obtain ⟨new, posted, udp⟩ := ih
    refine ⟨_ :: new, posted.trans (List.append_assoc ..), fun m mem => ?_⟩
    rcases List.mem_cons.mp mem with rfl | mem
    · rfl
    · exact udp m mem
  | case2 => exact ⟨[], (List.append_nil _).symm, by simp⟩
  | case3 => exact ⟨[], (List.append_nil _).symm, by simp⟩

/-- Nothing is read. -/
theorem readData_blocked {outcomes : List ReadOutcome}
    (blocked : outcomes.headD .eagain = .eagain ∨ outcomes.headD .eagain = .eintr) :
    (s.readData fd outcomes).posted = s.posted := by
  have round : ∀ outcome, outcome = .eagain ∨ outcome = .eintr →
      (s.readRound fd outcome).1 = false ∧ (s.readRound fd outcome).2.posted = s.posted := by
    intro outcome blocked
    unfold readRound
    split
    · exact ⟨rfl, rfl⟩
    · rcases blocked with rfl | rfl <;> exact ⟨rfl, rfl⟩
  cases outcomes with
  | nil => exact (round .eagain (Or.inl rfl)).2
  | cons outcome outcomes =>
    obtain ⟨last, posted⟩ := round outcome blocked
    unfold readData
    split
    · rename_i t more
      rw [more] at last
      cases last
    · rename_i t eq
      rw [eq] at posted
      exact posted

/-- An event with nothing to report. -/
theorem onRW_silent {r w : Bool} {answers : Answers} (managed : s.conns fd = some conn)
    (connecting : conn.connecting = false)
    (silent : Introduction.Silent s fd conn r w answers) :
    ∃ new, (s.onRW fd r w answers).posted = s.posted ++ new ∧
      ∀ m ∈ new, m.1.subtype ≠ .data ∧ m.1.subtype ≠ .close := by
  obtain ⟨reads, writes⟩ := silent
  unfold onRW
  rw [managed]
  dsimp only
  rw [connecting]
  simp only [Bool.false_eq_true, if_false]
  have first : ∀ t, (if w then s.onWriteable fd answers.writes else s) = t →
      t.posted = s.posted ∧ ∃ calls, t.conns fd = some { conn with calls } := by
    rintro t rfl
    cases w with
    | true => exact onWriteable_open managed (writes rfl)
    | false => exact ⟨rfl, conn.calls, managed⟩
  generalize eq : (if w then s.onWriteable fd answers.writes else s) = t
  obtain ⟨posted, calls, managed'⟩ := first t eq
  have none : ∃ new, t.posted = s.posted ++ new ∧
      ∀ m ∈ new, m.1.subtype ≠ .data ∧ m.1.subtype ≠ .close :=
    ⟨[], by rw [posted, List.append_nil], nofun⟩
  rw [managed']
  dsimp only
  split
  · rename_i readable
    obtain ⟨⟨rfl, -⟩, running⟩ : (r = true ∧ _) ∧ conn.paused = false := by simpa using readable
    split
    · obtain ⟨new, posted', udp⟩ := readUdp_posted t fd conn.serviceId answers.datagrams
      refine ⟨new, by rw [posted', posted], fun m mem => ?_⟩
      rw [udp m mem]
      exact ⟨nofun, nofun⟩
    · have blocked := (reads rfl).resolve_left (by rw [running]; nofun)
      exact ⟨[], by rw [readData_blocked blocked, posted, List.append_nil], nofun⟩
  · exact none

/-- The operations other than `Connect` and the events. -/
theorem step_minor {op : SocketOp} (step : s.Step op s')
    (connects : ∀ fd serviceId ip, op ≠ .connect fd serviceId ip)
    (events : ∀ fd r w answers, op ≠ .onRW fd r w answers) :
    Minor s s' (opFd op) op.accepts := by
  cases step with
  | @openFd fd closed =>
    have opened : Tells s (s.setSocket fd (some {})) fd 0 := .same rfl rfl
    exact opened.minor rfl _
  | @listen fd serviceId closed =>
    exact .added (posted_addConn _)
      (addConn_conns { type := .listen, serviceId } (s.setSocket fd (some {})) fd)
  | @accept listenFd fd conn listener type closed => exact onAccept_minor ..
  | connect closed => exact absurd rfl (connects _ _ _)
  | bind fd serviceId datagram =>
    change Minor s (s.bind fd serviceId datagram).2 fd false
    unfold bind
    split
    · exact (show Tells s s fd 0 from .refl s).minor rfl _
    split
    · exact (show Tells s s fd 0 from .refl s).minor rfl _
    · rename_i unmanaged
      exact .opened (by simpa using unmanaged) (posted_addConn _)
  | sendBuffer fd buff low writes =>
    obtain ⟨⟨new, posted, warns⟩, conns⟩ := sendBuffer_tells s fd buff low writes
    refine ⟨new, posted, fun m mem => ?_, fun conn' managed => Or.inl (conns conn' managed)⟩
    rw [warns m mem]
    exact ⟨nofun, nofun⟩
  | onRW => exact absurd rfl (events _ _ _ _)
  | pauseRead fd => exact (setPaused_tells s fd true 0).minor (posted_setPaused ..) _
  | resumeRead fd => exact (setPaused_tells s fd false 0).minor (posted_setPaused ..) _
  | lingerClose fd => exact (lingerClose_tells s fd 0).minor (posted_lingerClose ..) _
  | closeConn fd => exact (closeConn_tells s fd 0).minor (posted_closeConn ..) _

end SocketServer

namespace Introduction

open SocketServer (socketMsg opFd)

/-! ### The log -/

/-- `DATA` or `CLOSE`. -/
def Entry.Reports (m : Entry) : Prop := m.msg.subtype = .data ∨ m.msg.subtype = .close

/-- `ACCEPT` or `CONNECT`. -/
def Entry.Introduces (m : Entry) : Prop := m.msg.subtype = .accept ∨ m.msg.subtype = .connect

/-- The log has an introduction of the connection to the service. -/
def Told (log : List Entry) (c : Nat) (serviceId : UInt32) : Prop :=
  ∃ m ∈ log, m.conn = c ∧ m.serviceId = serviceId ∧ m.Introduces

theorem Told.append {log : List Entry} {c : Nat} {serviceId : UInt32} (h : Told log c serviceId)
    (new : List Entry) : Told (log ++ new) c serviceId := by
  obtain ⟨m, mem, told⟩ := h
  exact ⟨m, List.mem_append_left _ mem, told⟩

/-- The introductions come first. -/
def Ordered (introduces : Nat → Bool) (log : List Entry) : Prop :=
  ∀ before m after, log = before ++ m :: after → introduces m.conn = true → m.Reports →
    Told before m.conn m.serviceId

theorem Ordered.append {introduces : Nat → Bool} {log new : List Entry} (h : Ordered introduces log)
    (tells : ∀ before m after, new = before ++ m :: after → introduces m.conn = true → m.Reports →
      Told (log ++ before) m.conn m.serviceId) : Ordered introduces (log ++ new) := by
  intro before m after eq
  rcases List.append_eq_append_iff.mp eq with ⟨rest, rfl, later⟩ | ⟨rest, first, later⟩
  · exact tells rest m after later
  · cases rest with
    | nil =>
      rw [List.append_nil] at first
      subst first
      simpa using tells [] m after later.symm
    | cons m' rest =>
      rw [List.cons_append, List.cons.injEq] at later
      obtain ⟨rfl, -⟩ := later
      exact h before m rest first

theorem Ordered.congr {introduces introduces' : Nat → Bool} {log : List Entry}
    (h : Ordered introduces log)
    (same : ∀ m ∈ log, m.Reports → introduces' m.conn = introduces m.conn) :
    Ordered introduces' log := by
  rintro before m after rfl introduced reports
  refine h before m after rfl ?_ reports
  rwa [same m (List.mem_append_right _ List.mem_cons_self) reports] at introduced

/-- Each queue keeps the order of the log. -/
theorem Engine.introduced_of_ordered {ι : Type} {e : Engine ι}
    (h : Ordered e.introduces e.log) : e.Introduced := by
  intro serviceId before m after queue introduced reports
  obtain ⟨l₁, l₂, log, rfl, tail⟩ := List.filter_eq_append_iff.mp queue
  obtain ⟨l₃, l₄, rfl, skipped, own, -⟩ := List.filter_eq_cons_iff.mp tail
  obtain ⟨m', mem, conn, service, introduces⟩ :=
    h (l₁ ++ l₃) m l₄ (by rw [log, List.append_assoc]) introduced reports
  have own' : m'.serviceId = serviceId := service.trans (of_decide_eq_true own)
  refine ⟨m', List.mem_filter.mpr ⟨?_, decide_eq_true own'⟩, conn, introduces⟩
  rcases List.mem_append.mp mem with mem | mem
  · exact mem
  · exact absurd (decide_eq_true own') (skipped m' mem)

namespace Engine

variable {ι : Type} {e : Engine ι}

/-- A connection that is neither introduced nor being made has its `Connect` under way. -/
structure Good (e : Engine ι) : Prop where
  known : ∀ fd conn, e.server.conns fd = some conn → e.introduces (e.ids fd) = true →
    conn.connecting = false → Told e.log (e.ids fd) conn.serviceId ∨
      ∃ t d, (e.threads t).pending = some d ∧ d.fd = fd ∧ d.conn = e.ids fd
  service : ∀ t d conn, (e.threads t).dial = some d → e.server.conns d.fd = some conn →
    e.ids d.fd = d.conn → conn.serviceId = d.serviceId
  target : ∀ t d target, e.threads t = .found d target → (e.server.conns d.fd).isSome = true →
    e.ids d.fd = d.conn → target = some d.conn
  apart : ∀ t t' d d', (e.threads t).dial = some d → (e.threads t').dial = some d' →
    d.conn = d'.conn → t = t'
  numbers : ∀ t d, (e.threads t).dial = some d → d.conn < e.next
  managed : ∀ fd, (e.server.conns fd).isSome = true → e.ids fd < e.next
  past : ∀ m ∈ e.log, m.Reports → m.conn < e.next
  ordered : Ordered e.introduces e.log

theorem Good.initial : (Engine.initial : Engine ι).Good where
  known _ _ managed := by cases managed
  service _ _ _ dial := by cases dial
  target _ _ _ found := by cases found
  apart _ _ _ _ dial := by cases dial
  numbers _ _ dial := by cases dial
  managed _ managed := by cases managed
  past _ mem := by cases mem
  ordered before m after eq := absurd eq (List.append_ne_nil_of_right_ne_nil _ (List.cons_ne_nil _ _)).symm

/-- What an operation at a descriptor posts and leaves of the connection. -/
structure Work (e : Engine ι) (server : SocketServer) (fd : Int32) (accepts : Bool)
    (new : List (SocketMsg × UInt32)) : Prop where
  posted : server.posted = e.server.posted ++ new
  conns : ∀ conn', server.conns fd = some conn' →
    (∃ conn, e.server.conns fd = some conn ∧ conn'.serviceId = conn.serviceId ∧
      (conn'.connecting = false → conn.connecting = false ∨
        ∃ m ∈ new, m.1.fd = fd ∧ m.2 = conn'.serviceId ∧ m.1.subtype = .connect)) ∨
    e.server.conns fd = none ∧ (accepts = true → ∃ m ∈ new, m.1.fd = fd ∧
      m.2 = conn'.serviceId ∧ m.1.subtype = .accept)
  reports : ∀ before m after, new = before ++ m :: after →
    (m.1.subtype = .data ∨ m.1.subtype = .close) →
    m.1.fd = fd ∧ (e.server.conns fd).isSome = true ∧ (e.introduces (e.ids fd) = true →
      Told e.log (e.ids fd) m.2 ∨ ∃ m' ∈ before, m'.1.fd = fd ∧ m'.2 = m.2 ∧
        m'.1.subtype = .connect)

/-- The number of a connection that is there after an operation. -/
theorem become_ids {op : SocketOp} {server : SocketServer} (step : e.server.Step op server) {fd : Int32}
    {conn' : Conn} (managed' : server.conns fd = some conn') :
    (e.server.conns fd).isSome = true ∧ (e.become op server).ids fd = e.ids fd ∨
      e.server.conns fd = none ∧ fd = opFd op ∧ (e.become op server).ids fd = e.next := by
  by_cases here : fd = opFd op
  · subst here
    cases managed : e.server.conns (opFd op) with
    | some conn => exact Or.inl ⟨rfl, by simp [Engine.become, managed]⟩
    | none => exact Or.inr ⟨rfl, rfl, by simp [Engine.become, managed, managed']⟩
  · have same : server.conns fd = e.server.conns fd :=
      congrArg Slot.conn (SocketServer.step_other step here)
    refine Or.inl ⟨by rw [← same, managed']; rfl, ?_⟩
    simp only [Engine.become]
    split
    · exact Function.update_of_ne here ..
    · rfl

theorem become_ids_managed {op : SocketOp} {server : SocketServer}
    (managed : (e.server.conns (opFd op)).isSome = true) : (e.become op server).ids = e.ids := by
  obtain ⟨conn, managed⟩ := Option.isSome_iff_exists.mp managed
  simp [Engine.become, managed]

theorem become_introduces {op : SocketOp} {server : SocketServer} {c : Nat} (old : c < e.next) :
    (e.become op server).introduces c = e.introduces c :=
  Function.update_of_ne (Nat.ne_of_lt old) ..

theorem become_introduces_next (op : SocketOp) (server : SocketServer) :
    (e.become op server).introduces e.next = op.accepts := Function.update_self ..

theorem become_log (op : SocketOp) {server : SocketServer} {new : List (SocketMsg × UInt32)}
    (posted : server.posted = e.server.posted ++ new) : (e.become op server).log =
      e.log ++ new.map fun m => ⟨(e.become op server).ids m.1.fd, m.1, m.2⟩ := by
  simp only [Engine.become, posted, List.drop_left]

theorem Good.become (h : e.Good) {op : SocketOp} {server : SocketServer}
    {new : List (SocketMsg × UInt32)} (step : e.server.Step op server)
    (work : e.Work server (opFd op) op.accepts new) : (e.become op server).Good := by
  have log := become_log op work.posted
  have told : ∀ fd serviceId, (∃ m ∈ new, m.1.fd = fd ∧ m.2 = serviceId ∧
      (m.1.subtype = .accept ∨ m.1.subtype = .connect)) →
      Told (e.become op server).log ((e.become op server).ids fd) serviceId := by
    rintro fd serviceId ⟨m, mem, rfl, own, introduces⟩
    rw [log]
    exact ⟨_, List.mem_append_right _ (List.mem_map_of_mem mem), rfl, own, introduces⟩
  have old : ∀ fd conn', server.conns fd = some conn' → (e.become op server).ids fd < e.next →
      ∃ conn, e.server.conns fd = some conn ∧ (e.become op server).ids fd = e.ids fd ∧
        conn'.serviceId = conn.serviceId ∧ (conn'.connecting = false → conn.connecting = false ∨
          Told (e.become op server).log (e.ids fd) conn'.serviceId) := by
    intro fd conn' managed' lt
    rcases become_ids step managed' with ⟨managed, same⟩ | ⟨-, -, same⟩
    · refine same ▸ ?_
      by_cases here : fd = opFd op
      · subst here
        rcases work.conns conn' managed' with ⟨conn, managed₀, service, done⟩ | ⟨none, -⟩
        · refine ⟨conn, managed₀, rfl, service, fun connecting => (done connecting).imp_right ?_⟩
          rintro ⟨m, mem, here, own, connect⟩
          exact told _ _ ⟨m, mem, here, own, Or.inr connect⟩
        · rw [none] at managed
          cases managed
      · have conns : server.conns fd = e.server.conns fd :=
          congrArg Slot.conn (SocketServer.step_other step here)
        exact ⟨conn', conns ▸ managed', rfl, rfl, Or.inl⟩
    · exact absurd (same ▸ lt) (Nat.lt_irrefl _)
  constructor
  · intro fd conn' managed' introduced connecting'
    rcases become_ids step managed' with ⟨managed, same⟩ | ⟨none, rfl, same⟩
    · have lt := h.managed fd managed
      rw [same] at introduced ⊢
      rw [become_introduces lt] at introduced
      obtain ⟨conn, managed₀, -, service, done⟩ := old fd conn' managed' (same ▸ lt)
      rcases done connecting' with connecting | told
      · refine (h.known fd conn managed₀ introduced connecting).imp_left fun told => ?_
        rw [log, service]
        exact told.append _
      · exact Or.inl told
    · rcases work.conns conn' managed' with ⟨conn, managed₀, -⟩ | ⟨-, accepts⟩
      · cases none.symm.trans managed₀
      · rw [same, become_introduces_next] at introduced
        obtain ⟨m, mem, here, own, accept⟩ := accepts introduced
        exact Or.inl (told _ _ ⟨m, mem, here, own, Or.inl accept⟩)
  · intro t d conn' dial managed' own
    obtain ⟨conn, managed₀, same, service, -⟩ := old d.fd conn' managed' (own ▸ h.numbers t d dial)
    exact service.trans (h.service t d conn dial managed₀ (same.symm.trans own))
  · intro t d target found managed' own
    have dial : (e.threads t).dial = some d := congrArg Stage.dial found
    obtain ⟨conn', managed'⟩ := Option.isSome_iff_exists.mp managed'
    obtain ⟨conn, managed₀, same, -⟩ := old d.fd conn' managed' (own ▸ h.numbers t d dial)
    exact h.target t d target found (by rw [managed₀]; rfl) (same.symm.trans own)
  · exact h.apart
  · exact fun t d dial => Nat.lt_succ_of_lt (h.numbers t d dial)
  · intro fd managed'
    obtain ⟨conn', managed'⟩ := Option.isSome_iff_exists.mp managed'
    rcases become_ids step managed' with ⟨managed, same⟩ | ⟨-, -, same⟩
    · exact same ▸ Nat.lt_succ_of_lt (h.managed fd managed)
    · exact same ▸ Nat.lt_succ_self _
  · intro m mem reports
    rw [log] at mem
    rcases List.mem_append.mp mem with mem | mem
    · exact Nat.lt_succ_of_lt (h.past m mem reports)
    · obtain ⟨m₀, mem₀, rfl⟩ := List.mem_map.mp mem
      obtain ⟨before, after, eq⟩ := List.append_of_mem mem₀
      obtain ⟨here, managed, -⟩ := work.reports before m₀ after eq reports
      change (e.become op server).ids m₀.1.fd < _
      rw [here, become_ids_managed managed]
      exact Nat.lt_succ_of_lt (h.managed _ managed)
  · rw [log]
    refine (h.ordered.congr fun m mem reports => become_introduces (h.past m mem reports)).append ?_
    intro before m after eq introduced reports
    obtain ⟨before₀, rest, rfl, rfl, tail⟩ := List.map_eq_append_iff.mp eq
    obtain ⟨m₀, after₀, rfl, rfl, -⟩ := List.map_eq_cons_iff.mp tail
    obtain ⟨here, managed, tells⟩ := work.reports before₀ m₀ after₀ rfl reports
    have ids : (e.become op server).ids m₀.1.fd = e.ids (opFd op) := by
      rw [here, become_ids_managed managed]
    dsimp only at introduced ⊢
    rw [ids] at introduced ⊢
    rw [become_introduces (h.managed _ managed)] at introduced
    rcases tells introduced with told | ⟨m', mem, here', own, connect⟩
    · exact told.append _
    · refine ⟨_, List.mem_append_right _ (List.mem_map_of_mem mem), ?_, own, Or.inr connect⟩
      dsimp only
      rw [here', become_ids_managed managed]

/-- An operation that posts neither `DATA` nor `CLOSE`. -/
theorem work_of_minor {server : SocketServer} {fd : Int32} {accepts : Bool}
    (minor : e.server.Minor server fd accepts) : ∃ new, e.Work server fd accepts new := by
  obtain ⟨new, posted, silent, conns⟩ := minor.posted
  refine ⟨new, posted, fun conn' managed' => ?_, fun before m after eq reports => ?_⟩
  · rcases conns conn' managed' with ⟨conn, managed, service, connecting⟩ | ⟨none, introduced⟩
    · exact Or.inl ⟨conn, managed, service, fun done => Or.inl (connecting ▸ done)⟩
    · refine Or.inr ⟨none, fun accepts => ?_⟩
      obtain ⟨m, mem, accept, here, own⟩ := introduced accepts
      exact ⟨m, mem, here, own, accept⟩
  · have neither := silent m (eq ▸ List.mem_append_right _ List.mem_cons_self)
    exact absurd reports (not_or.mpr neither)

/-- An event of a connection. -/
theorem Good.work_onRW [DecidableEq ι] (h : e.Good) {fd : Int32} {r w : Bool} {answers : Answers}
    {conn : Conn} (managed : e.server.conns fd = some conn)
    (inOrder : e.InOrder (.engine (.onRW fd r w answers))) :
    ∃ new, e.Work (e.server.onRW fd r w answers) fd false new := by
  have some : (e.server.conns fd).isSome = true := by rw [managed]; rfl
  by_cases completes : w = true ∧ conn.connecting = true
  · obtain ⟨rfl, connecting⟩ := completes
    obtain ⟨m, new, posted, here, answer, reports, failed, done⟩ :=
      SocketServer.onRW_answers r answers managed connecting
    refine ⟨_, posted, fun conn' managed' => Or.inl ⟨conn, managed, (done conn' managed').1, ?_⟩, ?_⟩
    · intro _
      refine Or.inr ⟨_, List.mem_cons_self, here, (done conn' managed').1.symm, ?_⟩
      by_contra error
      cases (failed error).2.symm.trans managed'
    · intro before m' after eq report
      cases before with
      | nil =>
        obtain ⟨rfl, -⟩ := List.cons.inj eq
        rcases report with data | close
        · rw [data] at answer
          cases answer
        · rw [close] at answer
          cases answer
      | cons first before =>
        obtain ⟨rfl, later⟩ := List.cons.inj eq
        have later' : m' ∈ new := later ▸ List.mem_append_right _ List.mem_cons_self
        obtain ⟨here', own, -⟩ := reports m' later'
        refine ⟨here', some, fun _ => Or.inr ⟨_, List.mem_cons_self, here, own.symm, ?_⟩⟩
        by_contra error
        rw [(failed error).1] at later'
        cases later'
  · have tells : SocketServer.Tells e.server (e.server.onRW fd r w answers) fd conn.serviceId :=
      SocketServer.onRW_tells managed completes
    obtain ⟨new, posted, reports⟩ := tells.posted
    refine ⟨new, posted, fun conn' managed' => ?_, fun before m after eq report => ?_⟩
    · obtain ⟨conn₀, managed₀, service, same⟩ := tells.conns conn' managed'
      exact Or.inl ⟨conn₀, managed₀, service, fun done => Or.inl (same ▸ done)⟩
    · have mem : m ∈ new := eq ▸ List.mem_append_right _ List.mem_cons_self
      obtain ⟨here, own, -⟩ := reports m mem
      refine ⟨here, some, fun introduced => Or.inl ?_⟩
      cases connecting : conn.connecting with
      | true =>
        have unread : w = false := Bool.not_eq_true _ ▸ fun write => completes ⟨write, connecting⟩
        have ignored : e.server.onRW fd r w answers = e.server := by
          simp [SocketServer.onRW, managed, connecting, unread]
        rw [ignored] at posted
        rw [List.self_eq_append_right.mp posted] at mem
        cases mem
      | false =>
        rcases h.known fd conn managed introduced connecting with told | ⟨t, d, pending, at_, number⟩
        · rw [own]
          exact told
        · obtain ⟨new', posted', silent⟩ := SocketServer.onRW_silent managed connecting
            (inOrder t d conn pending at_ number managed connecting)
          rw [List.append_cancel_left (posted.symm.trans posted')] at mem
          exact absurd report (not_or.mpr (silent m mem))

theorem Good.engine [DecidableEq ι] (h : e.Good) {op : SocketOp} {server : SocketServer}
    (step : e.server.Step op server) (other : ∀ fd serviceId ip, op ≠ .connect fd serviceId ip)
    (inOrder : e.InOrder (.engine op)) : (e.become op server).Good := by
  by_cases event : ∃ fd r w answers, op = .onRW fd r w answers
  · obtain ⟨fd, r, w, answers, rfl⟩ := event
    cases step with
    | onRW managed type =>
      obtain ⟨new, work⟩ := h.work_onRW managed inOrder
      exact h.become (.onRW managed type) work
  · obtain ⟨new, work⟩ := work_of_minor (SocketServer.step_minor step other
      fun fd r w answers eq => event ⟨fd, r, w, answers, eq⟩)
    exact h.become step work

/-! ### The steps of `Connect` -/

variable [DecidableEq ι]

theorem setThread_self (t : ι) (stage : Stage) : (e.setThread t stage).threads t = stage :=
  Function.update_self ..

theorem setThread_of_ne {t t' : ι} (other : t' ≠ t) (stage : Stage) :
    (e.setThread t stage).threads t' = e.threads t' := Function.update_of_ne other ..

/-- The calls that are under way after a thread has gone on with its own. -/
theorem dial_setThread {t t' : ι} {stage : Stage} {d : Dial}
    (goesOn : ∀ d, stage.dial = some d → (e.threads t).dial = some d)
    (dial : ((e.setThread t stage).threads t').dial = some d) : (e.threads t').dial = some d := by
  by_cases own : t' = t
  · subst own
    rw [setThread_self] at dial
    exact goesOn d dial
  · rwa [setThread_of_ne own] at dial

theorem Good.connect (h : e.Good) {t : ι} {fd : Int32} {serviceId : UInt32}
    {ip : Option (List UInt8)} (idle : e.threads t = .idle) :
    Good { e.setThread t (.opened ⟨fd, e.next, serviceId, ip⟩) with
      server := e.server.setSocket fd (some {})
      next := e.next + 1
      introduces := Function.update e.introduces e.next true } := by
  have old : ∀ c, c < e.next → Function.update e.introduces e.next true c = e.introduces c :=
    fun c lt => Function.update_of_ne (Nat.ne_of_lt lt) ..
  have dials : ∀ {t' d}, ((e.setThread t (.opened ⟨fd, e.next, serviceId, ip⟩)).threads t').dial =
      some d → t' = t ∧ d.conn = e.next ∨ (e.threads t').dial = some d ∧ d.conn < e.next := by
    intro t' d dial
    by_cases own : t' = t
    · subst own
      rw [setThread_self] at dial
      cases dial
      exact Or.inl ⟨rfl, rfl⟩
    · rw [setThread_of_ne own] at dial
      exact Or.inr ⟨dial, h.numbers t' d dial⟩
  constructor
  · intro fd' conn managed introduced connecting
    have lt := h.managed fd' (by rw [show e.server.conns fd' = some conn from managed]; rfl)
    refine (h.known fd' conn managed ((old _ lt).symm.trans introduced) connecting).imp_right ?_
    rintro ⟨t', d, pending, here, number⟩
    refine ⟨t', d, ?_, here, number⟩
    have other : t' ≠ t := by
      rintro rfl
      rw [idle] at pending
      cases pending
    exact (congrArg Stage.pending (setThread_of_ne other _)).trans pending
  · intro t' d conn dial managed own
    rcases dials dial with ⟨-, new⟩ | ⟨dial, -⟩
    · have lt := h.managed d.fd (by rw [show e.server.conns d.fd = some conn from managed]; rfl)
      exact absurd (own.trans new) (Nat.ne_of_lt lt)
    · exact h.service t' d conn dial managed own
  · intro t' d target found managed own
    have other : t' ≠ t := by
      rintro rfl
      cases (setThread_self t' _).symm.trans found
    exact h.target t' d target ((setThread_of_ne other _).symm.trans found) managed own
  · intro t₁ t₂ d₁ d₂ dial₁ dial₂ same
    rcases dials dial₁ with ⟨rfl, new₁⟩ | ⟨dial₁, lt₁⟩
    · rcases dials dial₂ with ⟨rfl, -⟩ | ⟨-, lt₂⟩
      · rfl
      · exact absurd (same.symm.trans new₁) (Nat.ne_of_lt lt₂)
    · rcases dials dial₂ with ⟨-, new₂⟩ | ⟨dial₂, -⟩
      · exact absurd (same.trans new₂) (Nat.ne_of_lt lt₁)
      · exact h.apart t₁ t₂ d₁ d₂ dial₁ dial₂ same
  · intro t' d dial
    rcases dials dial with ⟨-, new⟩ | ⟨-, lt⟩
    · exact new ▸ Nat.lt_succ_self _
    · exact Nat.lt_succ_of_lt lt
  · exact fun fd' managed => Nat.lt_succ_of_lt (h.managed fd' managed)
  · exact fun m mem reports => Nat.lt_succ_of_lt (h.past m mem reports)
  · exact h.ordered.congr fun m mem reports => old _ (h.past m mem reports)

/-- A thread goes on with its call, and puts no connection into `conns`. -/
theorem Good.advance (h : e.Good) (t : ι) (stage : Stage) (server : SocketServer) (new : List Entry)
    (goesOn : ∀ d, stage.dial = some d → (e.threads t).dial = some d)
    (conns : ∀ fd conn', server.conns fd = some conn' → ∃ conn, e.server.conns fd = some conn ∧
      conn'.serviceId = conn.serviceId ∧ (conn'.connecting = false → conn.connecting = false ∨
        ∃ d, stage.pending = some d ∧ d.fd = fd ∧ d.conn = e.ids fd))
    (pending : ∀ d, (e.threads t).pending = some d → stage.pending = some d ∨
      ∀ conn', server.conns d.fd = some conn' → e.ids d.fd = d.conn → conn'.connecting = true ∨
        Told (e.log ++ new) d.conn conn'.serviceId)
    (target : ∀ d target, stage = .found d target → (server.conns d.fd).isSome = true →
      e.ids d.fd = d.conn → target = some d.conn)
    (silent : ∀ m ∈ new, ¬m.Reports) :
    Good { e.setThread t stage with server, log := e.log ++ new } := by
  have still : ∀ fd, (server.conns fd).isSome = true → (e.server.conns fd).isSome = true := by
    intro fd managed'
    obtain ⟨conn', managed'⟩ := Option.isSome_iff_exists.mp managed'
    obtain ⟨conn, managed, -⟩ := conns fd conn' managed'
    rw [managed]
    rfl
  constructor
  · intro fd conn' managed' introduced connecting'
    obtain ⟨conn, managed, service, before⟩ := conns fd conn' managed'
    rcases before connecting' with connecting | ⟨d, own, here, number⟩
    · rcases h.known fd conn managed introduced connecting with told | ⟨t', d, own, rfl, number⟩
      · exact Or.inl (service ▸ told.append new)
      · by_cases same : t' = t
        · subst same
          rcases pending d own with still | done
          · refine Or.inr ⟨t', d, ?_, rfl, number⟩
            exact (congrArg Stage.pending (setThread_self t' _)).trans still
          · rcases done conn' managed' number.symm with connecting | told
            · cases connecting.symm.trans connecting'
            · exact Or.inl (number ▸ told)
        · refine Or.inr ⟨t', d, ?_, rfl, number⟩
          exact (congrArg Stage.pending (setThread_of_ne same _)).trans own
    · refine Or.inr ⟨t, d, ?_, here, number⟩
      exact (congrArg Stage.pending (setThread_self t _)).trans own
  · intro t' d conn' dial managed' own
    obtain ⟨conn, managed, service, -⟩ := conns d.fd conn' managed'
    exact service.trans (h.service t' d conn (dial_setThread goesOn dial) managed own)
  · intro t' d target' found managed' own
    by_cases same : t' = t
    · subst same
      exact target d target' ((setThread_self t' _).symm.trans found) managed' own
    · exact h.target t' d target' ((setThread_of_ne same _).symm.trans found) (still d.fd managed') own
  · intro t₁ t₂ d₁ d₂ dial₁ dial₂
    exact h.apart t₁ t₂ d₁ d₂ (dial_setThread goesOn dial₁) (dial_setThread goesOn dial₂)
  · exact fun t' d dial => h.numbers t' d (dial_setThread goesOn dial)
  · exact fun fd managed' => h.managed fd (still fd managed')
  · intro m mem reports
    rcases List.mem_append.mp mem with mem | mem
    · exact h.past m mem reports
    · exact absurd reports (silent m mem)
  · refine h.ordered.append fun before m after eq _ reports => ?_
    exact absurd reports (silent m (eq ▸ List.mem_append_right _ List.mem_cons_self))

/-- A thread goes on with its call and posts nothing. -/
theorem Good.goOn (h : e.Good) (t : ι) (stage : Stage) (server : SocketServer)
    (goesOn : ∀ d, stage.dial = some d → (e.threads t).dial = some d)
    (conns : ∀ fd conn', server.conns fd = some conn' → ∃ conn, e.server.conns fd = some conn ∧
      conn'.serviceId = conn.serviceId ∧ (conn'.connecting = false → conn.connecting = false ∨
        ∃ d, stage.pending = some d ∧ d.fd = fd ∧ d.conn = e.ids fd))
    (pending : ∀ d, (e.threads t).pending = some d → stage.pending = some d ∨
      ∀ conn', server.conns d.fd = some conn' → e.ids d.fd = d.conn → conn'.connecting = true)
    (target : ∀ d target, stage = .found d target → (server.conns d.fd).isSome = true →
      e.ids d.fd = d.conn → target = some d.conn) :
    Good { e.setThread t stage with server } := by
  have gone := h.advance t stage server [] goesOn conns
    (fun d own => (pending d own).imp_right fun made conn' managed' number =>
      Or.inl (made conn' managed' number)) target (by simp)
  rwa [List.append_nil] at gone

/-- `AddConn` puts the connection into `conns`, unless there is one under its number. -/
theorem Good.addConn (h : e.Good) {t : ι} {d : Dial} (here : e.threads t = .opened d) :
    (e.run t).Good := by
  have dial : (e.threads t).dial = some d := congrArg Stage.dial here
  have goesOn : ∀ d', (Stage.added d).dial = some d' → (e.threads t).dial = some d' :=
    fun d' same => dial.trans same
  cases managed : e.server.conns d.fd with
  | some conn =>
    rw [Engine.run, here]
    simp only [SocketServer.addConn, managed, Option.isSome_some, if_true]
    exact h.goOn t (.added d) e.server goesOn
      (fun fd conn' managed' => ⟨conn', managed', rfl, Or.inl⟩)
      (fun d' pending => by rw [here] at pending; cases pending) (by simp)
  | none =>
    let conn : Conn := { type := .client, serviceId := d.serviceId }
    have eq : e.run t = { e.setThread t (.added d) with
        server := e.server.setConn d.fd (some conn)
        ids := Function.update e.ids d.fd d.conn } := by
      simp [Engine.run, here, SocketServer.addConn, managed, conn]
    have conns : (e.server.setConn d.fd (some conn)).conns d.fd = some conn :=
      SocketServer.conns_setConn ..
    have others : ∀ {fd}, fd ≠ d.fd →
        (e.server.setConn d.fd (some conn)).conns fd = e.server.conns fd :=
      fun other => Function.update_of_ne other ..
    rw [eq]
    constructor
    · intro fd conn' managed' introduced connecting'
      by_cases same : fd = d.fd
      · subst same
        refine Or.inr ⟨t, d, congrArg Stage.pending (setThread_self t _), rfl, ?_⟩
        exact (Function.update_self d.fd d.conn e.ids).symm
      · have ids : Function.update e.ids d.fd d.conn fd = e.ids fd := Function.update_of_ne same ..
        dsimp only at managed' introduced ⊢
        rw [ids] at introduced ⊢
        refine (h.known fd conn' ((others same).symm.trans managed') introduced connecting').imp_right ?_
        rintro ⟨t', d', pending, at_, number⟩
        refine ⟨t', d', ?_, at_, number⟩
        have other : t' ≠ t := by
          rintro rfl
          rw [here] at pending
          cases pending
        exact (congrArg Stage.pending (setThread_of_ne other _)).trans pending
    · intro t' d' conn' dial' managed' own
      have before := dial_setThread goesOn dial'
      dsimp only at managed' own
      by_cases same : d'.fd = d.fd
      · rw [same, Function.update_self] at own
        obtain rfl := h.apart t t' d d' dial before own
        cases dial.symm.trans before
        cases conns.symm.trans managed'
        rfl
      · rw [Function.update_of_ne same] at own
        exact h.service t' d' conn' before ((others same).symm.trans managed') own
    · intro t' d' target found managed' own
      have other : t' ≠ t := by
        rintro rfl
        cases (setThread_self t' _).symm.trans found
      have found' := (setThread_of_ne other _).symm.trans found
      have dial' : (e.threads t').dial = some d' := congrArg Stage.dial found'
      dsimp only at managed' own
      by_cases same : d'.fd = d.fd
      · rw [same, Function.update_self] at own
        exact absurd (h.apart t t' d d' dial dial' own).symm other
      · rw [Function.update_of_ne same] at own
        rw [others same] at managed'
        exact h.target t' d' target found' managed' own
    · intro t₁ t₂ d₁ d₂ dial₁ dial₂
      exact h.apart t₁ t₂ d₁ d₂ (dial_setThread goesOn dial₁) (dial_setThread goesOn dial₂)
    · exact fun t' d' dial' => h.numbers t' d' (dial_setThread goesOn dial')
    · intro fd managed'
      dsimp only at managed' ⊢
      by_cases same : fd = d.fd
      · rw [same, Function.update_self]
        exact h.numbers t d dial
      · rw [Function.update_of_ne same]
        rw [others same] at managed'
        exact h.managed fd managed'
    · exact h.past
    · exact h.ordered

/-- `Connect` marks the connection that it has found. -/
theorem Good.mark (h : e.Good) {t : ι} {d : Dial} {target : Option Nat}
    (here : e.threads t = .found d target) (inOrder : e.InOrder (.run t)) : (e.run t).Good := by
  have goesOn : ∀ d', (Stage.marked d).dial = some d' → (e.threads t).dial = some d' := by
    intro d' same
    rw [here]
    exact same
  have pending : ∀ d', (e.threads t).pending = some d' → d' = d := by
    intro d' pending
    rw [here] at pending
    cases pending
    rfl
  have marked : (Stage.marked d).pending = if d.ip.isSome then some d else none := rfl
  rw [Engine.run, here]
  dsimp only
  by_cases own : target = some (e.ids d.fd)
  · rw [if_pos own]
    have conns : ∀ conn',
        (e.server.modConn d.fd fun conn => { conn with connecting := d.ip.isNone }).conns d.fd =
          some conn' →
        ∃ conn, e.server.conns d.fd = some conn ∧ { conn with connecting := d.ip.isNone } = conn' := by
      intro conn' managed'
      rw [SocketServer.modConn, SocketServer.conns_setConn] at managed'
      exact Option.map_eq_some_iff.mp managed'
    refine h.goOn t (.marked d)
      (e.server.modConn d.fd fun conn => { conn with connecting := d.ip.isNone }) goesOn ?_ ?_
      (by simp)
    · intro fd conn' managed'
      by_cases same : fd = d.fd
      · subst same
        obtain ⟨conn, managed, rfl⟩ := conns conn' managed'
        refine ⟨conn, managed, rfl, fun answered => ?_⟩
        have answered : d.ip.isSome = true := by simpa using answered
        by_cases number : d.conn = e.ids d.fd
        · exact Or.inr ⟨d, by rw [marked, if_pos answered], rfl, number⟩
        · refine Or.inl ((SocketServer.connHas_eq managed).symm.trans ?_)
          exact inOrder d target here answered own number
      · have others : (e.server.modConn d.fd fun conn => { conn with
            connecting := d.ip.isNone }).conns fd = e.server.conns fd := Function.update_of_ne same ..
        exact ⟨conn', others.symm.trans managed', rfl, Or.inl⟩
    · intro d' same
      obtain rfl := pending d' same
      by_cases answered : d'.ip.isSome = true
      · exact Or.inl (by rw [marked, if_pos answered])
      · refine Or.inr fun conn' managed' _ => ?_
        obtain ⟨conn, -, rfl⟩ := conns conn' managed'
        simpa using answered
  · rw [if_neg own]
    refine h.goOn t (.marked d) e.server goesOn
      (fun fd conn' managed' => ⟨conn', managed', rfl, Or.inl⟩) ?_ (by simp)
    intro d' same
    obtain rfl := pending d' same
    refine Or.inr fun conn' managed' number => absurd ?_ own
    rw [number]
    exact h.target t d' target here (by rw [managed']; rfl) number

theorem Good.run (h : e.Good) (t : ι) (inOrder : e.InOrder (.run t)) : (e.run t).Good := by
  cases here : e.threads t with
  | idle =>
    rw [Engine.run, here]
    exact h
  | opened d => exact h.addConn here
  | added d =>
    rw [Engine.run, here]
    refine h.goOn t (.found d ((e.server.conns d.fd).map fun _ => e.ids d.fd)) e.server
      (fun d' dial => by rw [here]; exact dial) (fun fd conn' managed' => ⟨conn', managed', rfl, Or.inl⟩)
      (fun d' pending => by rw [here] at pending; exact Or.inl pending) ?_
    rintro d' target ⟨⟩ managed own
    obtain ⟨conn, managed⟩ := Option.isSome_iff_exists.mp managed
    rw [managed, Option.map_some, own]
  | found d target => exact h.mark here inOrder
  | marked d =>
    rw [Engine.run, here]
    exact h.goOn t (.registered d) (e.server.addEvent d.fd)
      (fun d' dial => by rw [here]; exact dial) (fun fd conn' managed' => ⟨conn', managed', rfl, Or.inl⟩)
      (fun d' pending => by rw [here] at pending; exact Or.inl pending) (by simp)
  | registered d =>
    rw [Engine.run, here]
    dsimp only
    have goesOn : ∀ d', (Stage.idle).dial = some d' → (e.threads t).dial = some d' := nofun
    cases answered : d.ip with
    | some ip =>
      refine h.advance t .idle _ [_] goesOn
        (fun fd conn' managed' => ⟨conn', managed', rfl, Or.inl⟩) (fun d' pending => Or.inr ?_) nofun
        fun m mem => ?_
      · have own : d' = d := by
          rw [here, Stage.pending, answered] at pending
          exact (Option.some.inj pending).symm
        subst own
        intro conn' managed' number
        refine Or.inr ⟨_, List.mem_append_right _ (List.mem_singleton_self _), rfl, ?_, Or.inr rfl⟩
        exact (h.service t d' conn' (congrArg Stage.dial here) managed' number).symm
      · rw [List.mem_singleton.mp mem]
        rintro (data | close)
        · cases data
        · cases close
    | none =>
      refine h.goOn t .idle (e.server.modifyEvent d.fd true) goesOn
        (fun fd conn' managed' => ⟨conn', managed', rfl, Or.inl⟩) (fun d' pending => ?_) (by simp)
      rw [here, Stage.pending, answered] at pending
      cases pending

theorem Good.step {e' : Engine ι} {move : Move ι} (h : e.Good) (step : Step e move e')
    (inOrder : e.InOrder move) : e'.Good := by
  cases step with
  | engine step other => exact h.engine step other inOrder
  | connect idle free => exact h.connect idle
  | run t => exact h.run t inOrder

end Engine

/-- In every run in which the events of a new connection of `Connect` come after it is introduced or
marked, the introduction comes first in the queue of the service. -/
theorem introduced_of_inOrder {ι : Type} [DecidableEq ι] {e : Engine ι} {tr : List (Move ι)}
    (run : ((engine ι).restrict Engine.InOrder).Run e tr) : e.Introduced := by
  have good : e.Good := by
    refine run.stateInvariant (P := Engine.Good) ?_ ?_
    · rintro _ rfl
      exact .initial
    · rintro e move e' before ⟨step, inOrder⟩
      exact before.step step inOrder
  exact Engine.introduced_of_ordered good.ordered

/-- An operation adds to the posted messages. -/
theorem step_posted {s s' : SocketServer} {op : SocketOp} (step : s.Step op s')
    (other : ∀ fd serviceId ip, op ≠ .connect fd serviceId ip) :
    ∃ new, s'.posted = s.posted ++ new := by
  by_cases event : ∃ fd r w answers, op = .onRW fd r w answers
  · obtain ⟨fd, r, w, answers, rfl⟩ := event
    cases step with
    | @onRW _ _ _ _ conn managed type =>
      by_cases completes : w = true ∧ conn.connecting = true
      · obtain ⟨rfl, connecting⟩ := completes
        obtain ⟨m, new, posted, -⟩ := SocketServer.onRW_answers r answers managed connecting
        exact ⟨_, posted⟩
      · obtain ⟨new, posted, -⟩ := (SocketServer.onRW_tells managed completes).posted
        exact ⟨new, posted⟩
  · obtain ⟨new, posted, -⟩ := (SocketServer.step_minor step other
      fun fd r w answers eq => event ⟨fd, r, w, answers, eq⟩).posted
    exact ⟨new, posted⟩

/-- The log is what the engine has posted. -/
theorem log_posted {ι : Type} [DecidableEq ι] {e : Engine ι} {tr : List (Move ι)}
    (run : (engine ι).Run e tr) :
    e.log.map (fun m => (m.msg, m.serviceId)) = e.server.posted := by
  refine run.stateInvariant
    (P := fun e => e.log.map (fun m => (m.msg, m.serviceId)) = e.server.posted) ?_ ?_
  · rintro _ rfl
    rfl
  · intro e move e' before step
    cases step with
    | engine step other =>
      obtain ⟨new, posted⟩ := step_posted step other
      rw [Engine.become_log _ posted, List.map_append, before, List.map_map,
        show (e.become _ _).server.posted = _ from posted]
      exact congrArg (e.server.posted ++ ·) (List.map_id new)
    | connect => exact before
    | run t =>
      have still : ∀ e' : Engine ι, e'.log = e.log → e'.server.posted = e.server.posted →
          e'.log.map (fun m => (m.msg, m.serviceId)) = e'.server.posted := by
        intro e' log posted
        rw [log, posted]
        exact before
      unfold Engine.run
      split
      · exact before
      · exact still _ rfl (SocketServer.posted_addConn _)
      · exact before
      · refine still _ rfl ?_
        dsimp only
        split <;> rfl
      · exact still _ rfl rfl
      · split
        · exact (List.map_append ..).trans (congrArg (· ++ [_]) before)
        · exact still _ rfl rfl

/-- A `Connect` on descriptor 5 that has succeeded at once. -/
def dialed : Engine Unit :=
  { (Engine.initial : Engine Unit).setThread () (.opened ⟨5, 0, 7, some []⟩) with
    server := SocketServer.initial.setSocket 5 (some {})
    next := 1
    introduces := Function.update (fun _ => false) 0 true }

theorem dialed_run : ((engine Unit).restrict Engine.InOrder).Run dialed [.connect () 5 7 (some [])] := by
  have step : Engine.Step Engine.initial (.connect () 5 7 (some [])) dialed := .connect rfl rfl
  exact Transition.System.Run.step (.init rfl) ⟨step, trivial⟩

/-- Data is read from a connection after its `CONNECT`. -/
theorem introduced_connect_first : ∃ e tr, ((engine Unit).restrict Engine.InOrder).Run e tr ∧
    (e.queue 7).map (·.msg.subtype) = [.connect, .data] ∧ e.Introduced := by
  let answers : Answers := { reads := [.data [1]] }
  let e₁ := dialed.run ()
  let e₂ := e₁.run ()
  let e₃ := e₂.run ()
  let e₄ := e₃.run ()
  let e₅ := e₄.run ()
  let e₆ := e₅.become (.onRW 5 true false answers) (e₅.server.onRW 5 true false answers)
  have managed : e₅.server.conns 5 = some ((e₅.server.conns 5).get rfl) := rfl
  have run₁ := dialed_run.step ⟨.run dialed (), by rintro d target ⟨⟩⟩
  have run₂ := run₁.step ⟨.run e₁ (), by rintro d target ⟨⟩⟩
  have run₃ := run₂.step ⟨.run e₂ (), by rintro d target ⟨⟩ - - ne; exact absurd rfl ne⟩
  have run₄ := run₃.step ⟨.run e₃ (), by rintro d target ⟨⟩⟩
  have run₅ := run₄.step ⟨.run e₄ (), by rintro d target ⟨⟩⟩
  have event : Engine.Step e₅ (.engine (.onRW 5 true false answers)) e₆ :=
    .engine (.onRW managed (by decide)) nofun
  have run₆ := run₅.step ⟨event, by rintro t d conn ⟨⟩⟩
  exact ⟨e₆, _, run₆, rfl, introduced_of_inOrder run₆⟩

/-- Data is read from a connection between `AddEvent` and its `CONNECT`. -/
theorem not_introduced_data_first :
    ¬∀ (e : Engine Unit) (tr : List (Move Unit)), (engine Unit).Run e tr → e.Introduced := by
  intro claim
  let answers : Answers := { reads := [.data [1]] }
  let e₄ := (((dialed.run ()).run ()).run ()).run ()
  let e₅ := e₄.become (.onRW 5 true false answers) (e₄.server.onRW 5 true false answers)
  have managed : e₄.server.conns 5 = some ((e₄.server.conns 5).get rfl) := rfl
  have event : Engine.Step e₄ (.engine (.onRW 5 true false answers)) e₅ :=
    .engine (.onRW managed (by decide)) nofun
  have run₁ := dialed_run.of_restrict.step (.run dialed ())
  have run₄ := ((run₁.step (.run _ ())).step (.run _ ())).step (.run _ ())
  have run₆ := (run₄.step event).step (.run e₅ ())
  have queue : (e₅.run ()).queue 7 = [⟨0, { socketMsg .data 5 with buff := [1] }, 7⟩,
    ⟨0, socketMsg .connect 5, 7⟩] := rfl
  obtain ⟨m, mem, -⟩ := claim _ _ run₆ 7 [] _ _ queue rfl (Or.inl rfl)
  cases mem

end Introduction

end Starnet
