import Starnet.Clusterd.Node
import Starnet.Lib.Transition

/-! Nodes that run `clusterd`, and the connections between them. A connection carries packets in
both directions, in order. The engine of a node posts messages in order too, and may give the
number of a closed descriptor to a new connection before `clusterd` has handled them. -/

namespace Starnet.Clusterd

/-- A connection, and the node name that it was made for. -/
structure Conn (ι : Type*) where
  client : ι
  server : ι
  node : List UInt8

/-- `flight` holds the packets that an end has written and the other end has not read yet; `asked`
the requests that wait or waited for a response, `replied` the answers of the handlers, `returned`
the requests that succeeded, with what they returned. -/
structure Net (ι : Type*) where
  node : ι → Node
  conn : List (Conn ι)
  accepted : Nat → Bool
  flight : Nat → Side → List (List UInt8)
  asked : List (ι × Request)
  replied : List (ι × Handler × Bool × List UInt8)
  returned : List (ι × Request × List UInt8)

/-- The commands of `cluster.lua`, and the events of the engine and of local services. -/
inductive Op (ι : Type*)
  | accept (i : ι) (fd : Int32) (conn : Nat)
  | receive (i : ι) (fd : Int32)
  | lose (i : ι) (fd : Int32) (failed : Bool)
  | request (i : ι) (node addr payload : List UInt8) (needResponse : Bool)
  | connect (i : ι) (node addr payload : List UInt8) (needResponse : Bool) (fd : Int32) (server : ι)
  | register (i : ι) (source : UInt32) (name : List UInt8) (addr : Option (List UInt8))
  | unregister (i : ι) (name : List UInt8)
  | reload (i : ι) (nodeAddress : List UInt8 → Option (List UInt8))
  | handle (i : ι) (found : Option (List UInt8))
  | reply (i : ι) (h : Handler) (ok : Bool) (data : List UInt8)

variable {ι : Type*}

namespace Net

def initial : Net ι where
  node _ := .initial
  conn := []
  accepted _ := false
  flight _ _ := []
  asked := []
  replied := []
  returned := []

def setFlight (σ : Net ι) (conn : Nat) (side : Side) (msgs : List (List UInt8)) : Net ι :=
  { σ with
    flight := Function.update σ.flight conn (Function.update (σ.flight conn) side msgs) }

/-- `socket.write`: to the connection that has the descriptor now, or to none. -/
def write (σ : Net ι) (i : ι) (fd : Int32) (msg : List UInt8) : Net ι :=
  match (σ.node i).conns fd with
  | none => σ
  | some e => σ.setFlight e.conn e.side (σ.flight e.conn e.side ++ [msg])

/-- `handle_request` writes its answer. -/
def respond (σ : Net ι) (i : ι) (h : Handler) (ok : Bool) (data : List UInt8) : Net ι :=
  let σ := { σ with replied := σ.replied ++ [(i, h, ok, data)] }
  match packResponse h.session ok data with
  | none => σ
  | some msg => σ.write i h.fd msg

/-- The descriptor of a handler is still that of the connection its request came on, or is closed.
-/
def Keeps (σ : Net ι) (i : ι) (h : Handler) : Prop :=
  ∀ e ∈ (σ.node i).conns h.fd, e = ⟨h.conn, .inbound⟩

/-- The descriptor that `node_fd` has for a node is that of a connection made for it, or is closed.
-/
def Leads (σ : Net ι) (i : ι) (node : List UInt8) : Prop :=
  ∀ fd ∈ (σ.node i).nodeFd.lookup node, ∀ e ∈ (σ.node i).conns fd,
    e.side = .outbound ∧ ∃ conn ∈ σ.conn[e.conn]?, conn.node = node

instance (σ : Net ι) (i : ι) (h : Handler) : Decidable (σ.Keeps i h) :=
  inferInstanceAs (Decidable (∀ e ∈ (σ.node i).conns h.fd, e = ⟨h.conn, .inbound⟩))

instance (σ : Net ι) (i : ι) (node : List UInt8) : Decidable (σ.Leads i node) :=
  inferInstanceAs (Decidable (∀ fd ∈ (σ.node i).nodeFd.lookup node, ∀ e ∈ (σ.node i).conns fd,
    e.side = .outbound ∧ ∃ conn ∈ σ.conn[e.conn]?, conn.node = node))

/-- A handler answered this request of node `i` with `data`, on a node that was connected under the
name in the request. -/
def Answered (σ : Net ι) (i : ι) (request : Request) (data : List UInt8) : Prop :=
  ∃ h conn, σ.conn[h.conn]? = some conn ∧ (conn.server, h, true, data) ∈ σ.replied ∧
    conn.client = i ∧ conn.node = request.node ∧ h.addr = request.addr ∧
    h.payload = request.payload ∧ h.session = request.session

/-- Every request that succeeded returned the answer to that very request: no other request of the
node had its session number. -/
def OwnAnswers (σ : Net ι) : Prop :=
  ∀ i request data, (i, request, data) ∈ σ.returned → σ.Answered i request data ∧
    ∀ request', (i, request') ∈ σ.asked → request'.session = request.session → request' = request

variable [DecidableEq ι]

def setNode (σ : Net ι) (i : ι) (s : Node) : Net ι := { σ with node := Function.update σ.node i s }

@[simp] theorem setNode_node (σ : Net ι) (i : ι) (s : Node) : (σ.setNode i s).node i = s :=
  Function.update_self ..

theorem setNode_other (σ : Net ι) {i j : ι} (s : Node) (h : j ≠ i) :
    (σ.setNode i s).node j = σ.node j :=
  Function.update_of_ne h ..

/-- What is written does not depend on the history. -/
theorem write_asked (σ : Net ι) (i : ι) (s : Node) (fd : Int32) (msg : List UInt8)
    (new : List (ι × Request)) :
    { (σ.setNode i s).write i fd msg with asked := ((σ.setNode i s).write i fd msg).asked ++ new } =
      ({ σ with asked := σ.asked ++ new }.setNode i s).write i fd msg := by
  unfold write
  rw [setNode_node, setNode_node]
  cases s.conns fd <;> rfl

theorem setNode_setNode (σ : Net ι) (i : ι) (s s' : Node) :
    (σ.setNode i s).setNode i s' = σ.setNode i s' := by
  simp only [setNode, Function.update_idem]

theorem setNode_self (σ : Net ι) (i : ι) : σ.setNode i (σ.node i) = σ := by
  simp only [setNode, Function.update_eq_self]

/-- The engine of node `i` posts a message to `clusterd`. -/
def post (σ : Net ι) (i : ι) (mail : Mail) : Net ι :=
  σ.setNode i { σ.node i with inbox := (σ.node i).inbox ++ [mail] }

/-- `request`, when `socket.connect` returns `connected`. -/
def request (σ : Net ι) (i : ι) (node addr payload : List UInt8) (needResponse : Bool)
    (connected : Int32) : Net ι :=
  match (σ.node i).request node addr payload needResponse connected with
  | (s, none) => σ.setNode i s
  | (s, some sent) =>
    let σ := (σ.setNode i s).write i sent.fd sent.msg
    if sent.request.session = 0 then σ else { σ with asked := σ.asked ++ [(i, sent.request)] }

theorem request_getFd {σ : Net ι} {i : ι} {s : Node} {node addr payload : List UInt8}
    {needResponse : Bool} {connected fd : Int32}
    (got : (σ.node i).getFd node connected = some (fd, s))
    (found : s.nodeFd.lookup node = some fd) :
    σ.request i node addr payload needResponse connected =
      (σ.setNode i s).request i node addr payload needResponse (-1) := by
  unfold request
  rw [Node.request_getFd got found, setNode_node]
  simp only [setNode_setNode]

/-- `socket.connect` makes a connection with descriptor `fd`. -/
def connect (σ : Net ι) (i : ι) (node : List UInt8) (fd : Int32) (server : ι) : Net ι :=
  { σ.setNode i { σ.node i with
      conns := Function.update (σ.node i).conns fd (some ⟨σ.conn.length, .outbound⟩) } with
    conn := σ.conn ++ [⟨i, server, node⟩] }

/-- `handle_request` until it returns or waits in `starnet.call`. -/
def handleRequest (tonumber : List UInt8 → Option Handle) (σ : Net ι) (i : ι) (h : Handler) :
    Net ι :=
  match (σ.node i).answerAtOnce tonumber h with
  | some (ok, data) => σ.respond i h ok data
  | none =>
    if h.session = 0 then σ
    else σ.setNode i { σ.node i with handlers := (σ.node i).handlers ++ [h] }

/-- The branch of `dispatch("socket")` for a response, and the rest of `request`. -/
def handleResponse (σ : Net ι) (i : ι) (msg : List UInt8) : Net ι :=
  match unpackResponse msg with
  | none => σ
  | some (session, ok, data) =>
    match (σ.node i).sessionCb session with
    | none => σ
    | some request =>
      let σ := σ.setNode i ((σ.node i).clear session)
      if ok then { σ with returned := σ.returned ++ [(i, request, data)] } else σ

/-- The functions that `clusterd` gives to `starnet.dispatch`. -/
def dispatch (tonumber : List UInt8 → Option Handle) (σ : Net ι) (i : ι) (mail : Mail)
    (found : Option (List UInt8)) : Net ι :=
  match mail.subtype with
  | .accept =>
    σ.setNode i { σ.node i with inFd := Function.update (σ.node i).inFd mail.fd true }
  | .data =>
    if (σ.node i).inFd mail.fd then
      match (σ.node i).asks mail with
      | none => σ
      | some h => σ.handleRequest tonumber i h
    else σ.handleResponse i mail.buff
  | .error | .close => σ.setNode i ((σ.node i).dropNode mail.fd found)
  | .connect | .udp | .warning => σ

def perform (tonumber : List UInt8 → Option Handle) (σ : Net ι) : Op ι → Option (Net ι)
  | .accept i fd conn =>
    if (σ.conn[conn]?.map (·.server)) = some i ∧ σ.accepted conn = false ∧
        0 ≤ fd ∧ (σ.node i).conns fd = none then
      let σ := { σ with accepted := Function.update σ.accepted conn true }
      some ((σ.setNode i { σ.node i with
        conns := Function.update (σ.node i).conns fd (some ⟨conn, .inbound⟩) }).post i
          ⟨.accept, fd, [], ⟨conn, .inbound⟩⟩)
    else none
  | .receive i fd =>
    match (σ.node i).conns fd with
    | none => none
    | some e =>
      match σ.flight e.conn e.side.peer with
      | [] => none
      | msg :: msgs =>
        some ((σ.setFlight e.conn e.side.peer msgs).post i ⟨.data, fd, msg.drop 2, e⟩)
  | .lose i fd failed =>
    match (σ.node i).conns fd with
    | none => none
    | some e => some ((σ.setNode i { σ.node i with
        conns := Function.update (σ.node i).conns fd none }).post i
          ⟨if failed then .error else .close, fd, [], e⟩)
  | .request i node addr payload needResponse =>
    some (σ.request i node addr payload needResponse (-1))
  | .connect i node addr payload needResponse fd server =>
    if (σ.node i).nodeFd.lookup node = none ∧
        (((σ.node i).nodeAddress node).bind Node.hostPort).isSome ∧
        0 ≤ fd ∧ (σ.node i).conns fd = none then
      some ((σ.connect i node fd server).request i node addr payload needResponse fd)
    else none
  | .register i source name addr => some (σ.setNode i ((σ.node i).register source name addr))
  | .unregister i name => some (σ.setNode i ((σ.node i).unregister name))
  | .reload i nodeAddress => some (σ.setNode i { σ.node i with nodeAddress })
  | .handle i found =>
    match (σ.node i).inbox with
    | [] => none
    | mail :: rest =>
      if mail.subtype = .error ∨ mail.subtype = .close → (σ.node i).Finds mail.fd found then
        some ((σ.setNode i { σ.node i with inbox := rest }).dispatch tonumber i mail found)
      else none
  | .reply i h ok data =>
    if h ∈ (σ.node i).handlers then
      some ((σ.setNode i { σ.node i with
        handlers := (σ.node i).handlers.erase h }).respond i h ok data)
    else none

/-- What an operation does, and when it can be done. -/
inductive Performs (tonumber : List UInt8 → Option Handle) (σ : Net ι) : Op ι → Net ι → Prop
  | accept {i : ι} {fd : Int32} {conn : Nat} (server : σ.conn[conn]?.map (·.server) = some i)
      (free : (σ.node i).conns fd = none) :
      Performs tonumber σ (.accept i fd conn)
        (({ σ with accepted := Function.update σ.accepted conn true }.setNode i { σ.node i with
          conns := Function.update (σ.node i).conns fd (some ⟨conn, .inbound⟩) }).post i
            ⟨.accept, fd, [], ⟨conn, .inbound⟩⟩)
  | receive {i : ι} {fd : Int32} {e : End} {msg : List UInt8} {msgs : List (List UInt8)}
      (isOpen : (σ.node i).conns fd = some e) (flight : σ.flight e.conn e.side.peer = msg :: msgs) :
      Performs tonumber σ (.receive i fd)
        ((σ.setFlight e.conn e.side.peer msgs).post i ⟨.data, fd, msg.drop 2, e⟩)
  | lose {i : ι} {fd : Int32} {e : End} (failed : Bool)
      (isOpen : (σ.node i).conns fd = some e) :
      Performs tonumber σ (.lose i fd failed)
        ((σ.setNode i { σ.node i with conns := Function.update (σ.node i).conns fd none }).post i
          ⟨if failed then .error else .close, fd, [], e⟩)
  | request (i : ι) (node addr payload : List UInt8) (needResponse : Bool) :
      Performs tonumber σ (.request i node addr payload needResponse)
        (σ.request i node addr payload needResponse (-1))
  | connect {i : ι} {node addr payload : List UInt8} {needResponse : Bool} {fd : Int32} {server : ι}
      (absent : (σ.node i).nodeFd.lookup node = none)
      (address : (((σ.node i).nodeAddress node).bind Node.hostPort).isSome)
      (valid : 0 ≤ fd) (free : (σ.node i).conns fd = none) :
      Performs tonumber σ (.connect i node addr payload needResponse fd server)
        ((σ.connect i node fd server).request i node addr payload needResponse fd)
  | register (i : ι) (source : UInt32) (name : List UInt8) (addr : Option (List UInt8)) :
      Performs tonumber σ (.register i source name addr)
        (σ.setNode i ((σ.node i).register source name addr))
  | unregister (i : ι) (name : List UInt8) :
      Performs tonumber σ (.unregister i name) (σ.setNode i ((σ.node i).unregister name))
  | reload (i : ι) (nodeAddress : List UInt8 → Option (List UInt8)) :
      Performs tonumber σ (.reload i nodeAddress) (σ.setNode i { σ.node i with nodeAddress })
  | handle {i : ι} {found : Option (List UInt8)} {mail : Mail} {rest : List Mail}
      (waiting : (σ.node i).inbox = mail :: rest)
      (finds : mail.subtype = .error ∨ mail.subtype = .close → (σ.node i).Finds mail.fd found) :
      Performs tonumber σ (.handle i found)
        ((σ.setNode i { σ.node i with inbox := rest }).dispatch tonumber i mail found)
  | reply {i : ι} {h : Handler} (ok : Bool) (data : List UInt8) (mem : h ∈ (σ.node i).handlers) :
      Performs tonumber σ (.reply i h ok data)
        ((σ.setNode i { σ.node i with
          handlers := (σ.node i).handlers.erase h }).respond i h ok data)

theorem performs_of_perform {tonumber : List UInt8 → Option Handle} {σ σ' : Net ι} {op : Op ι}
    (step : σ.perform tonumber op = some σ') : Performs tonumber σ op σ' := by
  cases op with
  | accept i fd conn =>
    simp only [perform] at step
    split at step
    · next allowed =>
      cases step
      exact .accept allowed.1 allowed.2.2.2
    · cases step
  | receive i fd =>
    simp only [perform] at step
    split at step
    · cases step
    · next e isOpen =>
      split at step
      · cases step
      · next flight =>
        cases step
        exact .receive isOpen flight
  | lose i fd failed =>
    simp only [perform] at step
    split at step
    · cases step
    · next e isOpen =>
      cases step
      exact .lose failed isOpen
  | request i node addr payload needResponse =>
    cases step
    exact .request i node addr payload needResponse
  | connect i node addr payload needResponse fd server =>
    simp only [perform] at step
    split at step
    · next allowed =>
      cases step
      obtain ⟨absent, address, valid, free⟩ := allowed
      exact .connect absent address valid free
    · cases step
  | register i source name addr =>
    cases step
    exact .register i source name addr
  | unregister i name =>
    cases step
    exact .unregister i name
  | reload i nodeAddress =>
    cases step
    exact .reload i nodeAddress
  | handle i found =>
    simp only [perform] at step
    split at step
    · cases step
    · next mail rest waiting =>
      split at step
      · next finds =>
        cases step
        exact .handle waiting finds
      · cases step
  | reply i h ok data =>
    simp only [perform] at step
    split at step
    · next mem =>
      cases step
      exact .reply ok data mem
    · cases step

end Net

/-- Nodes in any number; `tonumber` is the function of Lua. -/
def network (ι : Type*) [DecidableEq ι] (tonumber : List UInt8 → Option Handle) :
    Transition.System (Net ι) (Op ι) where
  init σ := σ = .initial
  step σ op σ' := σ.perform tonumber op = some σ'

/-- A descriptor is written to for a request or an answer only while no other connection has taken
over its number; `socket.connect` returns no number that a message still waiting for `clusterd` is
about; the session numbers do not wrap. -/
def KeepsNumbers (tonumber : List UInt8 → Option Handle) (σ : Net ι) : Op ι → Prop
  | .request i node _ _ needResponse =>
    σ.Leads i node ∧ (needResponse = true → (σ.node i).outSession ≠ Int64.maxValue)
  | .connect i _ _ _ needResponse fd _ =>
    (∀ mail ∈ (σ.node i).inbox, mail.fd ≠ fd) ∧
      (needResponse = true → (σ.node i).outSession ≠ Int64.maxValue)
  | .handle i _ => ∀ mail ∈ (σ.node i).inbox.head?, ∀ h ∈ (σ.node i).asks mail,
    (σ.node i).answerAtOnce tonumber h ≠ none → σ.Keeps i h
  | .reply i h _ _ => σ.Keeps i h
  | _ => True

instance (tonumber : List UInt8 → Option Handle) (σ : Net ι) :
    (op : Op ι) → Decidable (KeepsNumbers tonumber σ op)
  | .request i node _ _ needResponse => inferInstanceAs (Decidable (σ.Leads i node ∧
      (needResponse = true → (σ.node i).outSession ≠ Int64.maxValue)))
  | .connect i _ _ _ needResponse fd _ =>
    inferInstanceAs (Decidable ((∀ mail ∈ (σ.node i).inbox, mail.fd ≠ fd) ∧
      (needResponse = true → (σ.node i).outSession ≠ Int64.maxValue)))
  | .handle i _ => inferInstanceAs (Decidable (∀ mail ∈ (σ.node i).inbox.head?,
      ∀ h ∈ (σ.node i).asks mail, (σ.node i).answerAtOnce tonumber h ≠ none → σ.Keeps i h))
  | .reply i h _ _ => inferInstanceAs (Decidable (σ.Keeps i h))
  | .accept .. | .receive .. | .lose .. | .register .. | .unregister .. | .reload .. =>
    inferInstanceAs (Decidable True)

end Starnet.Clusterd
