import Starnet.Core.Message
import Starnet.Lib.Transition
import Starnet.Socket.Buffer
import Mathlib.Logic.Function.Basic

/-! The socket engine (`starnet_socket_server.cpp`) with the calls that `starnet.cpp` adds, each
taken as atomic. The kernel side is the table of open sockets with their epoll registration; its
answers are arguments of the operations. -/

namespace Starnet

/-- `Conn::TYPE`. -/
inductive ConnType
  | listen
  | client
  | udp
  deriving DecidableEq, Repr

/-- `READ_BUFFER_MIN`. -/
def readBufferMin : Nat := 8192

/-- `READ_BUFFER_MAX`. -/
def readBufferMax : Nat := 1 <<< 20

/-- `Conn`; its `fd` is its key in `conns`. `sent` are the messages that `SendBuffer` accepted on
the connection and `calls` the calls of `write` for it. -/
structure Conn where
  type : ConnType
  serviceId : UInt32
  connecting : Bool := false
  isBind : Bool := false
  paused : Bool := false
  readSize : Nat := readBufferMin
  readBuffCap : Nat := 0
  sent : List Submission := []
  calls : List WriteCall := []
  deriving DecidableEq, Repr

/-- The flags of an epoll registration. -/
structure EpollEvents where
  epollet : Bool
  epollin : Bool
  epollout : Bool
  deriving DecidableEq, Repr

/-- An open socket: its epoll registration, and whether `shutdown(fd, SHUT_RD)` was called. -/
structure Socket where
  events : Option EpollEvents := none
  readShut : Bool := false
  deriving DecidableEq, Repr

/-- What a call of `read` returns. -/
inductive ReadOutcome
  | data (bytes : List UInt8)
  | eof
  | eagain
  | eintr
  | error
  deriving DecidableEq, Repr

/-- What a call of `recvfrom` returns; the address is as `PackUdpAddress` gives it. -/
inductive RecvOutcome
  | datagram (payload udpAddr : List UInt8)
  | eagain
  | eintr
  | error
  deriving DecidableEq, Repr

/-- The answers of the kernel during one event: the text of `SO_ERROR`, the address of the peer, and
the results of `write`, `read` and `recvfrom`. -/
structure Answers where
  soError : Option (List UInt8) := none
  peer : List UInt8 := []
  writes : List WriteOutcome := []
  reads : List ReadOutcome := []
  datagrams : List RecvOutcome := []
  deriving DecidableEq, Repr

/-- `SocketServer`, with the open sockets of the kernel, the messages posted to services and the
calls of `close`. -/
structure SocketServer where
  conns : Int32 → Option Conn
  writeBuffers : Int32 → Option ConnWriteBuffer
  sockets : Int32 → Option Socket
  posted : List (SocketMsg × UInt32)
  closes : List Int32

namespace SocketServer

/-- The engine after `Init`. -/
def initial : SocketServer := ⟨fun _ => none, fun _ => none, fun _ => none, [], []⟩

/-! ### Tables -/

def setConn (s : SocketServer) (fd : Int32) (conn : Option Conn) : SocketServer :=
  { s with conns := Function.update s.conns fd conn }

/-- An assignment to fields of a managed connection. -/
def modConn (s : SocketServer) (fd : Int32) (f : Conn → Conn) : SocketServer :=
  s.setConn fd ((s.conns fd).map f)

def setBuffer (s : SocketServer) (fd : Int32) (wb : Option ConnWriteBuffer) : SocketServer :=
  { s with writeBuffers := Function.update s.writeBuffers fd wb }

def setSocket (s : SocketServer) (fd : Int32) (socket : Option Socket) : SocketServer :=
  { s with sockets := Function.update s.sockets fd socket }

/-- `listener->OnSocketMsg`. -/
def post (s : SocketServer) (msg : SocketMsg) (serviceId : UInt32) : SocketServer :=
  { s with posted := s.posted ++ [(msg, serviceId)] }

/-- A message object with the fields that the engine sets for every subtype. -/
def socketMsg (subtype : SocketSubtype) (fd : Int32) : SocketMsg :=
  { subtype, fd, listenFd := 0, size := 0, buff := [], udpAddr := [] }

/-- `close(fd)`, which also ends the epoll registration. -/
def close (s : SocketServer) (fd : Int32) : SocketServer :=
  { s.setSocket fd none with closes := s.closes ++ [fd] }

/-- `AddConn`. -/
def addConn (s : SocketServer) (fd : Int32) (conn : Conn) : SocketServer :=
  if (s.conns fd).isSome then s else s.setConn fd (some conn)

/-- `RemoveConn`. -/
def removeConn (s : SocketServer) (fd : Int32) : SocketServer :=
  (s.setConn fd none).setBuffer fd none

/-- `GetConn(fd)` finds a connection that `p` holds of. -/
def connHas (s : SocketServer) (fd : Int32) (p : Conn → Bool) : Bool := (s.conns fd).any p

/-! ### Events -/

/-- `EPOLL_CTL_ADD`, which fails on a descriptor that is registered. -/
def epollAdd (s : SocketServer) (fd : Int32) (events : EpollEvents) : SocketServer :=
  s.setSocket fd ((s.sockets fd).map fun k => { k with events := some (k.events.getD events) })

/-- `AddEvent`. -/
def addEvent (s : SocketServer) (fd : Int32) : SocketServer :=
  s.epollAdd fd ⟨true, !s.connHas fd Conn.paused, false⟩

/-- `RemoveEvent`. -/
def removeEvent (s : SocketServer) (fd : Int32) : SocketServer :=
  s.setSocket fd ((s.sockets fd).map fun k => { k with events := none })

/-- `ModifyEvent`; `EPOLL_CTL_MOD` fails on a descriptor that is not registered. -/
def modifyEvent (s : SocketServer) (fd : Int32) (epollOut : Bool) : SocketServer :=
  s.setSocket fd ((s.sockets fd).map fun k =>
    { k with events := k.events.map fun _ => ⟨true, !s.connHas fd Conn.paused, epollOut⟩ })

/-! ### Writing -/

/-- `SendBuffer`: the result and the engine after the call. -/
def sendBuffer (s : SocketServer) (fd : Int32) (buff : List UInt8) (low : Bool)
    (writes : List WriteOutcome) : Int × SocketServer :=
  match s.conns fd with
  | none => (-1, s)
  | some conn =>
    let wb := (s.writeBuffers fd).getD {}
    if wb.isClosing then (-1, s)
    else
      let msg : Submission := ⟨conn.sent.length, low, buff⟩
      let (wb, arm, io) := wb.send msg ⟨writes, conn.calls⟩
      let (wb, warnKb) := wb.warn
      let s := (s.setBuffer fd (some wb)).setConn fd
        (some { conn with sent := conn.sent ++ [msg], calls := io.calls })
      let s := if arm then s.modifyEvent fd true else s
      match warnKb with
      | none => (0, s)
      | some kb =>
        (0, s.post { socketMsg .warning fd with size := Int32.ofNat kb } conn.serviceId)

/-- The part of `OnWriteable` under the locks: `emptied`, `needNotify` and the engine. -/
def flushWriteable (s : SocketServer) (fd : Int32) (conn : Conn) (writes : List WriteOutcome) :
    Bool × Bool × SocketServer :=
  match s.writeBuffers fd with
  | none => (false, false, s)
  | some wb =>
    let (wb, io) := wb.flush ⟨writes, conn.calls⟩
    (!wb.hasData, !wb.hasData && wb.isClosing,
      (s.setBuffer fd (some wb)).setConn fd (some { conn with calls := io.calls }))

/-- `shutdown(fd, SHUT_RD)`. -/
def shutdownRead (s : SocketServer) (fd : Int32) : SocketServer :=
  s.setSocket fd ((s.sockets fd).map fun k => { k with readShut := true })

/-- The part of `OnWriteable` after the locks. -/
def finishWriteable (s : SocketServer) (fd : Int32) (conn : Conn) (emptied needNotify : Bool) :
    SocketServer :=
  if needNotify then (s.shutdownRead fd).post (socketMsg .close fd) conn.serviceId
  else if emptied then s.modifyEvent fd false
  else s

/-- `OnWriteable`. -/
def onWriteable (s : SocketServer) (fd : Int32) (writes : List WriteOutcome) : SocketServer :=
  match s.conns fd with
  | none => s
  | some conn =>
    let (emptied, needNotify, s) := s.flushWriteable fd conn writes
    s.finishWriteable fd conn emptied needNotify

/-- What `LingerClose` and `CloseAll` do to a connection that is not closed yet. -/
def dropConn (s : SocketServer) (fd : Int32) : SocketServer :=
  let isBind := s.connHas fd Conn.isBind
  let s := s.removeConn fd
  let s := if isBind then s else s.close fd
  s.removeEvent fd

/-- `LingerClose`. -/
def lingerClose (s : SocketServer) (fd : Int32) : SocketServer :=
  match s.writeBuffers fd with
  | none => s.dropConn fd
  | some wb =>
    if wb.isClosing then s
    else
      let s := s.setBuffer fd (some { wb with isClosing := true })
      if wb.hasData then s else s.dropConn fd

/-- `Starnet::CloseConn`. -/
def closeConn (s : SocketServer) (fd : Int32) : SocketServer :=
  let isBind := s.connHas fd Conn.isBind
  let succ := (s.conns fd).isSome
  let s := s.removeConn fd
  let s := if isBind then s else s.close fd
  if succ then s.removeEvent fd else s

/-! ### Reading -/

/-- `NotifyClose`. -/
def notifyClose (s : SocketServer) (fd : Int32) (conn : Conn) : SocketServer :=
  let s := s.post (socketMsg .close fd) conn.serviceId
  let s := s.removeConn fd
  let s := if conn.isBind then s else s.close fd
  s.removeEvent fd

/-- The buffer of `ReadData` has at least `readSize` bytes. -/
def growBuffer (conn : Conn) : Conn :=
  if conn.readBuffCap < conn.readSize then { conn with readBuffCap := conn.readSize } else conn

/-- The `readSize` after a read of `len` bytes. -/
def adaptReadSize (conn : Conn) (len : Nat) : Conn :=
  if len = conn.readSize then
    if conn.readSize < readBufferMax then
      { conn with
        readSize := if conn.readSize * 2 > readBufferMax then readBufferMax else conn.readSize * 2 }
    else conn
  else if conn.readSize > readBufferMin ∧ len * 2 < conn.readSize then
    { conn with readSize := conn.readSize / 2 }
  else conn

/-- One round of the loop in `ReadData`, and whether another one follows. -/
def readRound (s : SocketServer) (fd : Int32) (outcome : ReadOutcome) : Bool × SocketServer :=
  match s.conns fd with
  | none => (false, s)
  | some conn =>
    let conn := growBuffer conn
    let s := s.setConn fd (some conn)
    match outcome with
    | .data bytes =>
      let buff := bytes.take conn.readSize
      if buff.length > 0 then
        let s := s.post { socketMsg .data fd with buff := buff } conn.serviceId
        (buff.length = conn.readSize, s.setConn fd (some (adaptReadSize conn buff.length)))
      else (false, s.notifyClose fd conn)
    | .eof | .error => (false, s.notifyClose fd conn)
    | .eagain | .eintr => (false, s)

/-- `ReadData`; without an answer `read` would block. -/
def readData (s : SocketServer) (fd : Int32) : List ReadOutcome → SocketServer
  | [] => (s.readRound fd .eagain).2
  | outcome :: outcomes =>
    match s.readRound fd outcome with
    | (true, s) => s.readData fd outcomes
    | (false, s) => s

/-- `MAX_UDP`. -/
def maxUdp : Nat := 65536

/-- `ReadUdp`. -/
def readUdp (s : SocketServer) (fd : Int32) (serviceId : UInt32) :
    List RecvOutcome → SocketServer
  | .datagram payload udpAddr :: outcomes =>
    let buff := payload.take maxUdp
    if buff.length > 0 then
      (s.post { socketMsg .udp fd with buff := buff, udpAddr := udpAddr } serviceId).readUdp fd
        serviceId outcomes
    else s
  | _ => s

/-! ### Connecting -/

/-- `Connect` on the descriptor that `socket` gives; `ip` is the address of an immediate success. -/
def connect (s : SocketServer) (fd : Int32) (serviceId : UInt32) (ip : Option (List UInt8)) :
    SocketServer :=
  let s := (s.setSocket fd (some {})).addConn fd { type := .client, serviceId }
  match ip with
  | some ip =>
    ((s.modConn fd fun conn => { conn with connecting := false }).addEvent fd).post
      { socketMsg .connect fd with buff := ip } serviceId
  | none =>
    ((s.modConn fd fun conn => { conn with connecting := true }).addEvent fd).modifyEvent fd true

/-- `OnConnectFinish`. -/
def onConnectFinish (s : SocketServer) (fd : Int32) (conn : Conn) (answers : Answers) :
    SocketServer :=
  match answers.soError with
  | some err =>
    let s := s.post { socketMsg .error fd with buff := err } conn.serviceId
    ((s.removeConn fd).close fd).removeEvent fd
  | none =>
    ((s.modConn fd fun conn => { conn with connecting := false }).modifyEvent fd false).post
      { socketMsg .connect fd with buff := answers.peer } conn.serviceId

/-- `OnRW`. A connection that `OnConnectFinish` removed is still connecting and is not read. -/
def onRW (s : SocketServer) (fd : Int32) (r w : Bool) (answers : Answers) : SocketServer :=
  let s :=
    match s.conns fd with
    | some conn =>
      if w then
        if conn.connecting then s.onConnectFinish fd conn answers
        else s.onWriteable fd answers.writes
      else s
    | none => s
  match s.conns fd with
  | some conn =>
    if r && !conn.connecting && !conn.paused then
      if conn.type = .udp then s.readUdp fd conn.serviceId answers.datagrams
      else s.readData fd answers.reads
    else s
  | none => s

/-- `Starnet::Listen` on the descriptor that `socket` gives. -/
def listen (s : SocketServer) (fd : Int32) (serviceId : UInt32) : SocketServer :=
  ((s.setSocket fd (some {})).addConn fd { type := .listen, serviceId }).addEvent fd

/-- One round of `OnAccept`, for the descriptor that `accept` gives. -/
def onAccept (s : SocketServer) (listenFd fd : Int32) (serviceId : UInt32) : SocketServer :=
  (((s.setSocket fd (some {})).addConn fd { type := .client, serviceId }).epollAdd fd
    ⟨true, true, false⟩).post { socketMsg .accept fd with listenFd := listenFd } serviceId

/-- `Bind`: the result and the engine after the call. -/
def bind (s : SocketServer) (fd : Int32) (serviceId : UInt32) (datagram : Bool) :
    Int32 × SocketServer :=
  if (s.sockets fd).isNone then (-1, s)
  else if (s.conns fd).isSome then (-1, s)
  else
    let s := s.addConn fd { type := if datagram then .udp else .client, serviceId }
    (fd, (s.modConn fd fun conn => { conn with isBind := true }).addEvent fd)

/-! ### Flow control -/

/-- `PauseRead` and `ResumeRead`. -/
def setPaused (s : SocketServer) (fd : Int32) (paused : Bool) : Int × SocketServer :=
  match s.conns fd with
  | none => (-1, s)
  | some _ =>
    let s := s.modConn fd fun conn => { conn with paused := paused }
    (0, s.modifyEvent fd ((s.writeBuffers fd).any ConnWriteBuffer.hasData))

def pauseRead (s : SocketServer) (fd : Int32) : Int × SocketServer := s.setPaused fd true

def resumeRead (s : SocketServer) (fd : Int32) : Int × SocketServer := s.setPaused fd false

end SocketServer

/-! ### Runs -/

/-- A call of the engine, or an event that `epoll_wait` reports, with the answers of the kernel. -/
inductive SocketOp
  | openFd (fd : Int32)
  | listen (fd : Int32) (serviceId : UInt32)
  | accept (listenFd fd : Int32)
  | connect (fd : Int32) (serviceId : UInt32) (ip : Option (List UInt8))
  | bind (fd : Int32) (serviceId : UInt32) (datagram : Bool)
  | sendBuffer (fd : Int32) (buff : List UInt8) (low : Bool) (writes : List WriteOutcome)
  | onRW (fd : Int32) (r w : Bool) (answers : Answers)
  | pauseRead (fd : Int32)
  | resumeRead (fd : Int32)
  | lingerClose (fd : Int32)
  | closeConn (fd : Int32)
  deriving DecidableEq, Repr

namespace SocketServer

/-- The steps of the engine. The kernel gives only descriptors that are not open, and code outside
the engine may open one to bind it. -/
inductive Step : SocketServer → SocketOp → SocketServer → Prop
  | openFd {s : SocketServer} {fd} (free : s.sockets fd = none) :
      Step s (.openFd fd) (s.setSocket fd (some {}))
  | listen {s : SocketServer} {fd serviceId} (free : s.sockets fd = none) :
      Step s (.listen fd serviceId) (s.listen fd serviceId)
  | accept {s : SocketServer} {listenFd fd conn} (listener : s.conns listenFd = some conn)
      (type : conn.type = .listen) (free : s.sockets fd = none) :
      Step s (.accept listenFd fd) (s.onAccept listenFd fd conn.serviceId)
  | connect {s : SocketServer} {fd serviceId ip} (free : s.sockets fd = none) :
      Step s (.connect fd serviceId ip) (s.connect fd serviceId ip)
  | bind (s : SocketServer) (fd serviceId datagram) :
      Step s (.bind fd serviceId datagram) (s.bind fd serviceId datagram).2
  | sendBuffer (s : SocketServer) (fd buff low writes) :
      Step s (.sendBuffer fd buff low writes) (s.sendBuffer fd buff low writes).2
  | onRW {s : SocketServer} {fd r w answers conn} (managed : s.conns fd = some conn)
      (type : conn.type ≠ .listen) : Step s (.onRW fd r w answers) (s.onRW fd r w answers)
  | pauseRead (s : SocketServer) (fd) : Step s (.pauseRead fd) (s.pauseRead fd).2
  | resumeRead (s : SocketServer) (fd) : Step s (.resumeRead fd) (s.resumeRead fd).2
  | lingerClose (s : SocketServer) (fd) : Step s (.lingerClose fd) (s.lingerClose fd)
  | closeConn (s : SocketServer) (fd) : Step s (.closeConn fd) (s.closeConn fd)

end SocketServer

/-- The socket engine with its calls and events in any order. -/
def socketServer : Transition.System SocketServer SocketOp where
  init s := s = SocketServer.initial
  step := SocketServer.Step

end Starnet
