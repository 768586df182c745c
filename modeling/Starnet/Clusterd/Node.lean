import Starnet.Lib.StringPack
import Starnet.Netpack.Stream
import Starnet.Core.Message
import Mathlib.Data.List.AList

/-! The service `clusterd` of one node: its packets, its tables, and what its functions do with
them. The descriptors of the node are in the state too, with the connection that each stands for.
-/

namespace Starnet.Clusterd

open StringPack LuaNetpack

/-! ### Packets -/

def packRequest (addr : List UInt8) (session : Int64) (payload : List UInt8) :
    Option (List UInt8) := do
  let addr ← packString 2 addr
  let session ← packInt 4 session.toInt
  let payload ← packString 4 payload
  (lpack (addr ++ (session ++ payload))).toOption

def unpackRequest (buff : List UInt8) : Option (List UInt8 × Int64 × List UInt8) := do
  let (addr, buff) ← unpackString 2 buff
  let (session, buff) ← unpackInt 4 buff
  let (payload, _) ← unpackString 4 buff
  return (addr, .ofInt session, payload)

def packResponse (session : Int64) (ok : Bool) (data : List UInt8) : Option (List UInt8) := do
  let session ← packInt 4 session.toInt
  let ok ← packInt 1 (if ok then 1 else 0)
  let data ← packString 4 data
  (lpack (session ++ (ok ++ data))).toOption

def unpackResponse (buff : List UInt8) : Option (Int64 × Bool × List UInt8) := do
  let (session, buff) ← unpackInt 4 buff
  let (ok, buff) ← unpackInt 1 buff
  let (data, _) ← unpackString 4 buff
  return (.ofInt session, ok == 1, data)

theorem drop_lpack {msg packed : List UInt8} (h : (lpack msg).toOption = some packed) :
    packed.drop 2 = msg := by
  unfold lpack at h
  split at h <;> cases h
  rfl

/-- What `pack_request` packs is unpacked when the length in front of it is taken off. -/
theorem unpackRequest_packRequest {addr payload packed : List UInt8} {session : Int64}
    (h : packRequest addr session payload = some packed) :
    unpackRequest (packed.drop 2) = some (addr, session, payload) := by
  simp only [packRequest, Option.bind_eq_bind, Option.bind_eq_some_iff] at h
  obtain ⟨addr', first, session', second, payload', third, packed⟩ := h
  rw [drop_lpack packed, ← List.append_nil payload']
  simp only [unpackRequest, unpackString_packString first, unpackString_packString third,
    unpackInt_packInt (by decide) second, Option.bind_eq_bind, Option.bind_some, Option.pure_def,
    Int64.ofInt_toInt]

theorem unpackResponse_packResponse {data packed : List UInt8} {session : Int64} {ok : Bool}
    (h : packResponse session ok data = some packed) :
    unpackResponse (packed.drop 2) = some (session, ok, data) := by
  simp only [packResponse, Option.bind_eq_bind, Option.bind_eq_some_iff] at h
  obtain ⟨session', first, ok', second, data', third, packed⟩ := h
  have flag : ((if ok then 1 else 0 : Int) == 1) = ok := by cases ok <;> rfl
  rw [drop_lpack packed, ← List.append_nil data']
  simp only [unpackResponse, unpackString_packString third, unpackInt_packInt (by decide) first,
    unpackInt_packInt (by decide) second, Option.bind_eq_bind, Option.bind_some, Option.pure_def,
    Int64.ofInt_toInt, flag]

/-! ### State -/

/-- The end of a connection that made it, and the end that accepted it. -/
inductive Side
  | outbound
  | inbound
  deriving DecidableEq, Repr

def Side.peer : Side → Side
  | outbound => inbound
  | inbound => outbound

/-- An end of the connection with number `conn`. -/
structure End where
  conn : Nat
  side : Side
  deriving DecidableEq, Repr

/-- A message of the socket engine, and the end that it is about. -/
structure Mail where
  subtype : SocketSubtype
  fd : Int32
  buff : List UInt8
  about : End
  deriving DecidableEq, Repr

/-- A service address in `register_name`: the source of a message, or a string of its sender. -/
inductive Handle
  | source (id : UInt32)
  | string (addr : List UInt8)
  deriving DecidableEq, Repr

def Handle.tostring : Handle → List UInt8
  | source id => (toString id.toNat).toUTF8.toList
  | string addr => addr

/-- The locals of `request`. -/
structure Request where
  node : List UInt8
  addr : List UInt8
  payload : List UInt8
  session : Int64
  deriving DecidableEq, Repr

/-- The locals of `handle_request`, and the connection that the request came on. -/
structure Handler where
  fd : Int32
  addr : List UInt8
  session : Int64
  payload : List UInt8
  conn : Nat
  deriving DecidableEq, Repr

/-- The upvalues of `clusterd`: `session_cb` holds the locals of the coroutine instead of the
coroutine. `handlers` are the coroutines of `handle_request` that wait in `starnet.call`, `conns`
the descriptors in use and `inbox` the messages of the socket engine that wait for `clusterd`. -/
structure Node where
  nodeAddress : List UInt8 → Option (List UInt8)
  nodeFd : AList fun _ : List UInt8 => Int32
  inFd : Int32 → Bool
  registerName : List UInt8 → Option Handle
  registerAddr : Handle → Option (List UInt8)
  sessionCb : Int64 → Option Request
  sessionNode : Int64 → Option (List UInt8)
  outSession : Int64
  handlers : List Handler
  conns : Int32 → Option End
  inbox : List Mail

namespace Node

def initial : Node where
  nodeAddress _ := none
  nodeFd := ∅
  inFd _ := false
  registerName _ := none
  registerAddr _ := none
  sessionCb _ := none
  sessionNode _ := none
  outSession := 0
  handlers := []
  conns _ := none
  inbox := []

/-! ### Requests -/

def isDigit (c : UInt8) : Bool := 0x30 ≤ c && c ≤ 0x39

/-- `addr:match("^(.+):(%d+)$")`. -/
def hostPort (addr : List UInt8) : Option (List UInt8 × List UInt8) :=
  let port := (addr.reverse.takeWhile isDigit).reverse
  match addr.reverse.dropWhile isDigit with
  | 0x3a :: host => if host = [] ∨ port = [] then none else some (host.reverse, port)
  | _ => none

/-- `get_fd`, when `socket.connect` returns `connected`. -/
def getFd (s : Node) (node : List UInt8) (connected : Int32) : Option (Int32 × Node) :=
  match s.nodeFd.lookup node with
  | some fd => some (fd, s)
  | none =>
    match (s.nodeAddress node).bind hostPort with
    | none => none
    | some _ =>
      if connected < 0 then none
      else some (connected, { s with nodeFd := s.nodeFd.insert node connected })

/-- `request` waits for the response. -/
def wait (s : Node) (request : Request) : Node :=
  { s with
    sessionCb := Function.update s.sessionCb request.session (some request)
    sessionNode := Function.update s.sessionNode request.session (some request.node) }

/-- The locals of `request` at its `socket.write`. -/
structure Sent where
  fd : Int32
  msg : List UInt8
  request : Request

/-- `request` until it returns, raises an error or waits in `coroutine_yield`; `none` is an error.
-/
def request (s : Node) (node addr payload : List UInt8) (needResponse : Bool) (connected : Int32) :
    Node × Option Sent :=
  match s.getFd node connected with
  | none => (s, none)
  | some (fd, s) =>
    let s := if needResponse then { s with outSession := s.outSession + 1 } else s
    let session := if needResponse then s.outSession else 0
    match packRequest addr session payload with
    | none => (s, none)
    | some msg =>
      let request : Request := ⟨node, addr, payload, session⟩
      (if session = 0 then s else s.wait request, some ⟨fd, msg, request⟩)

section

variable {s : Node} {node addr payload : List UInt8} {connected fd : Int32}

theorem request_send (found : s.nodeFd.lookup node = some fd) :
    s.request node addr payload false connected = match packRequest addr 0 payload with
      | none => (s, none)
      | some msg => (s, some ⟨fd, msg, ⟨node, addr, payload, 0⟩⟩) := by
  simp only [request, getFd, found, Bool.false_eq_true, if_false, if_true]

theorem request_call (found : s.nodeFd.lookup node = some fd) (call : s.outSession + 1 ≠ 0) :
    s.request node addr payload true connected =
      let next := { s with outSession := s.outSession + 1 }
      let request : Request := ⟨node, addr, payload, s.outSession + 1⟩
      match packRequest addr request.session payload with
      | none => (next, none)
      | some msg => (next.wait request, some ⟨fd, msg, request⟩) := by
  simp only [request, getFd, found, if_true, if_neg call]

/-- `request` goes on from what `get_fd` leaves. -/
theorem request_getFd {s' : Node} {needResponse : Bool}
    (got : s.getFd node connected = some (fd, s')) (found : s'.nodeFd.lookup node = some fd) :
    s.request node addr payload needResponse connected =
      s'.request node addr payload needResponse (-1) := by
  have again : s'.getFd node (-1) = some (fd, s') := by simp only [getFd, found]
  simp only [request, got, again]

end

/-- A response or `drop_node` takes the coroutine of a session out of the tables; the coroutine
takes out the same entries again. -/
def clear (s : Node) (session : Int64) : Node :=
  { s with
    sessionCb := Function.update s.sessionCb session none
    sessionNode := Function.update s.sessionNode session none }

/-- `drop_node`, when `found` is the first entry of `node_fd` with descriptor `fd`. -/
def dropNode (s : Node) (fd : Int32) : (found : Option (List UInt8)) → Node
  | some node =>
    let woken := fun session =>
      decide (s.sessionNode session = some node) && (s.sessionCb session).isSome
    { s with
      nodeFd := s.nodeFd.erase node
      sessionCb := fun session => if woken session then none else s.sessionCb session
      sessionNode := fun session => if woken session then none else s.sessionNode session }
  | none => { s with inFd := Function.update s.inFd fd false }

/-- The loop of `drop_node` can come to `found` first. -/
def Finds (s : Node) (fd : Int32) (found : Option (List UInt8)) : Prop :=
  match found with
  | some node => s.nodeFd.lookup node = some fd
  | none => ∀ entry ∈ s.nodeFd.entries, entry.2 ≠ fd

instance (s : Node) (fd : Int32) : (found : Option (List UInt8)) → Decidable (s.Finds fd found)
  | some node => inferInstanceAs (Decidable (s.nodeFd.lookup node = some fd))
  | none => inferInstanceAs (Decidable (∀ entry ∈ s.nodeFd.entries, entry.2 ≠ fd))

/-! ### Answers -/

/-- The answer that `handle_request` gives without a service, if it does. -/
def answerAtOnce (s : Node) (tonumber : List UInt8 → Option Handle) (h : Handler) :
    Option (Bool × List UInt8) :=
  if h.addr = [] then
    match s.registerName h.payload with
    | some handle => some (true, handle.tostring)
    | none => some (false, "name not found".toUTF8.toList)
  else
    let handle :=
      if h.addr.head? = some 0x40 then s.registerName (h.addr.drop 1) else tonumber h.addr
    match handle with
    | none => some (false, "invalid address: ".toUTF8.toList ++ h.addr)
    | some _ => none

/-- The request that `dispatch("socket")` finds in a message. -/
def asks (s : Node) (mail : Mail) : Option Handler :=
  if mail.subtype = .data ∧ s.inFd mail.fd then
    (unpackRequest mail.buff).map fun (addr, session, payload) =>
      ⟨mail.fd, addr, session, payload, mail.about.conn⟩
  else none

/-! ### Names -/

def register (s : Node) (source : UInt32) (name : List UInt8) (addr : Option (List UInt8)) : Node :=
  let addr := (addr.map Handle.string).getD (.source source)
  let registerName := match s.registerAddr addr with
    | some old => Function.update s.registerName old none
    | none => s.registerName
  { s with
    registerName := Function.update registerName name (some addr)
    registerAddr := Function.update s.registerAddr addr (some name) }

def unregister (s : Node) (name : List UInt8) : Node :=
  match s.registerName name with
  | some addr => { s with
      registerName := Function.update s.registerName name none
      registerAddr := Function.update s.registerAddr addr none }
  | none => s

end Node

end Starnet.Clusterd
