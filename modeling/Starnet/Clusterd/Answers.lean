import Starnet.Clusterd.View

/-! Requests and their answers. A response is matched by its session number alone, and the
coroutine that answers a request writes to the descriptor the request came on, whatever connection
that number stands for by then. As long as no connection takes over the number of another one in
between, every request that succeeds returns its own answer; otherwise the answer may reach a node
that waits under the same session number. -/

namespace Starnet.Clusterd

variable {ι : Type*} {tonumber : List UInt8 → Option Handle} {σ σ' : Net ι} {i : ι}

namespace Net

/-! ### The steps keep the invariant -/

section

theorem Good.setFlight (good : σ.Good) {c : Nat} {side : Side} {msgs : List (List UInt8)}
    (h : ∀ msg ∈ msgs, σ.Carries c (msg.drop 2) side) : (σ.setFlight c side msgs).Good where
  node j :=
    have grows : Grows σ (σ.setFlight c side msgs) := ⟨id, id, id⟩
    (good.node j).mono grows
  positive := good.positive
  fresh := good.fresh
  unique := good.unique
  flight c' side' msg mem := by
    by_cases conn : c' = c
    · subst conn
      by_cases eq : side' = side
      · subst eq
        simp only [Net.setFlight, Function.update_self] at mem
        exact h msg mem
      · simp only [Net.setFlight, Function.update_self, Function.update_of_ne eq] at mem
        exact good.flight c' side' msg mem
    · simp only [Net.setFlight, Function.update_of_ne conn] at mem
      exact good.flight c' side' msg mem
  replied := good.replied
  returned := good.returned

theorem Good.write (good : σ.Good) {fd : Int32} {msg : List UInt8}
    (h : ∀ e, (σ.node i).conns fd = some e → σ.Carries e.conn (msg.drop 2) e.side) :
    (σ.write i fd msg).Good := by
  unfold Net.write
  split
  · exact good
  · next e open_ =>
    refine good.setFlight fun msg' mem => ?_
    rcases List.mem_append.mp mem with mem | mem
    · exact good.flight _ _ _ mem
    · rw [List.mem_singleton.mp mem]
      exact h e open_

theorem Good.reply (good : σ.Good) {h : Handler} (serves : σ.Serves i h) (ok : Bool)
    (data : List UInt8) : Good { σ with replied := σ.replied ++ [(i, h, ok, data)] } := by
  have grows : Grows σ { σ with replied := σ.replied ++ [(i, h, ok, data)] } :=
    ⟨id, id, List.mem_append_left _⟩
  refine ⟨fun j => (good.node j).mono grows, good.positive, good.fresh, good.unique,
    fun c side msg mem => (good.flight c side msg mem).mono grows,
    fun j h' ok' data' mem => ?_, fun j request data mem => ?_⟩
  · rcases List.mem_append.mp mem with mem | mem
    · exact good.replied j h' ok' data' mem
    · cases List.mem_singleton.mp mem
      exact serves
  · obtain ⟨asked, answered⟩ := good.returned j request data mem
    exact ⟨asked, answered.mono grows⟩

theorem Good.respond (good : σ.Good) {h : Handler} (serves : σ.Serves i h) (keeps : σ.Keeps i h)
    (ok : Bool) (data : List UInt8) : (σ.respond i h ok data).Good := by
  have replied := good.reply serves ok data
  unfold Net.respond
  dsimp only
  split
  · exact replied
  · next msg packed =>
    refine replied.write fun e open_ => ?_
    rw [keeps e open_]
    exact ⟨i, h, ok, data, unpackResponse_packResponse packed, rfl,
      List.mem_append_right _ (List.mem_singleton_self _)⟩

/-- What `request` writes on a connection that was made for its node. -/
theorem carries_request {node addr payload msg : List UInt8} {session : Int64} {e : End}
    (own : σ.At i e)
    (leads : e.side = .outbound ∧ ∃ conn, σ.conn[e.conn]? = some conn ∧ conn.node = node)
    (packed : packRequest addr session payload = some msg)
    (asked : session ≠ 0 → (i, ⟨node, addr, payload, session⟩) ∈ σ.asked) :
    σ.Carries e.conn (msg.drop 2) e.side := by
  obtain ⟨c, side⟩ := e
  obtain ⟨rfl, conn, found, rfl⟩ := leads
  obtain ⟨conn', found', rfl⟩ := own
  cases found.symm.trans found'
  exact ⟨conn.server, ⟨0, addr, session, payload, c⟩, unpackRequest_packRequest packed, rfl, conn,
    found, rfl, asked⟩

theorem Good.setAccepted (good : σ.Good) (accepted : Nat → Bool) : Good { σ with accepted } := by
  have grows : Grows σ { σ with accepted } := ⟨id, id, id⟩
  exact ⟨fun j => (good.node j).mono grows, good.positive, good.fresh, good.unique, good.flight,
    good.replied, good.returned⟩

theorem initial_good : (initial : Net ι).Good where
  node i := by
    refine ⟨nofun, nofun, nofun, nofun, fun _ => none, fun fd => rfl, nofun, fun fd => ?_,
      fun name fd => ?_⟩
    · exact ⟨nofun, nofun⟩
    · exact ⟨nofun, nofun⟩
  positive i := le_refl _
  fresh := nofun
  unique := nofun
  flight := nofun
  replied := nofun
  returned := nofun

variable [DecidableEq ι]

theorem Good.setNode (good : σ.Good) {s : Node} (h : σ.NodeGood i s)
    (out : (σ.node i).outSession.toInt ≤ s.outSession.toInt) : (σ.setNode i s).Good := by
  have grows : Grows σ (σ.setNode i s) := ⟨id, id, id⟩
  have later : ∀ j, (σ.node j).outSession.toInt ≤ ((σ.setNode i s).node j).outSession.toInt := by
    intro j
    by_cases eq : j = i
    · rw [eq, setNode_node]
      exact out
    · rw [setNode_other _ _ eq]
  refine ⟨fun j => ?_, fun j => le_trans (good.positive j) (later j), fun j request mem => ?_,
    good.unique, good.flight, good.replied, good.returned⟩
  · by_cases eq : j = i
    · rw [eq, setNode_node]
      exact h.mono grows
    · rw [setNode_other _ _ eq]
      exact (good.node j).mono grows
  · obtain ⟨positive, low⟩ := good.fresh j request mem
    exact ⟨positive, low.trans (later j)⟩

/-- A step of `clusterd` that keeps what `NodeGood` is about. -/
theorem Good.same (good : σ.Good) {s : Node} (h : s.outSession = (σ.node i).outSession)
    (node : σ.NodeGood i s) : (σ.setNode i s).Good :=
  good.setNode node (by rw [h])

theorem Good.handleRequest (good : σ.Good) {h : Handler} (serves : σ.Serves i h)
    (keeps : (σ.node i).answerAtOnce tonumber h ≠ none → σ.Keeps i h) :
    (σ.handleRequest tonumber i h).Good := by
  unfold Net.handleRequest
  split
  · next ok data atOnce =>
    exact good.respond serves (keeps (by rw [atOnce]; nofun)) ok data
  · split
    · exact good
    · have node := good.node i
      refine good.same rfl (node.lua node.waits (fun h' mem => ?_) rfl rfl rfl rfl)
      rcases List.mem_append.mp mem with mem | mem
      · exact node.handlers h' mem
      · rw [List.mem_singleton.mp mem]
        exact serves

/-- An answer that arrives is the answer to the request that waits for its session. -/
theorem Good.handleResponse (good : σ.Good) {c : Nat} {msg : List UInt8}
    (own : σ.At i ⟨c, .outbound⟩) (carries : σ.Carries c msg .inbound) : (σ.handleResponse i msg).Good := by
  obtain ⟨j, h, ok, data, unpacked, on, replied⟩ := carries
  unfold Net.handleResponse
  rw [unpacked]
  dsimp only
  split
  · exact good
  · next request waiting =>
    have node := good.node i
    obtain ⟨session, asked⟩ := node.waits _ _ waiting
    obtain ⟨conn, found, server, served⟩ := good.replied j h ok data replied
    obtain ⟨conn', found', client⟩ := own
    rw [on] at found
    cases found.symm.trans found'
    have positive := (good.fresh i request asked).1
    have call : h.session ≠ 0 := by
      intro zero
      rw [session, zero] at positive
      exact absurd positive (by decide)
    have mine := served call
    rw [show conn.client = i from client] at mine
    have same := good.unique i _ _ mine asked session.symm
    have cleared : (σ.setNode i ((σ.node i).clear h.session)).Good := by
      refine good.same rfl (node.lua (fun session' request' waiting' => ?_) node.handlers
        rfl rfl rfl rfl)
      by_cases eq : session' = h.session
      · rw [eq] at waiting'
        simp only [Node.clear, Function.update_self, reduceCtorEq] at waiting'
      · simp only [Node.clear, Function.update_of_ne eq] at waiting'
        exact node.waits session' request' waiting'
    split
    · next success =>
      have grows : Grows (σ.setNode i ((σ.node i).clear h.session))
          { σ.setNode i ((σ.node i).clear h.session) with
            returned := σ.returned ++ [(i, request, data)] } := ⟨id, id, id⟩
      refine ⟨fun j => (cleared.node j).mono grows, cleared.positive, cleared.fresh, cleared.unique,
        cleared.flight, cleared.replied, fun j' request' data' mem => ?_⟩
      rcases List.mem_append.mp mem with mem | mem
      · exact cleared.returned j' request' data' mem
      · cases List.mem_singleton.mp mem
        refine ⟨asked, h, conn, by rw [on]; exact found', ?_, client, ?_, ?_, ?_, ?_⟩
        · rw [server, ← success]
          exact replied
        all_goals rw [← same]
    · exact cleared

theorem toInt_add_one {n : Int64} (h : n ≠ Int64.maxValue) : (n + 1).toInt = n.toInt + 1 := by
  have below : n.toInt ≠ 2 ^ 63 - 1 := fun eq => h (Int64.toInt_inj.mp eq)
  have high := n.toInt_lt
  have low := n.le_toInt
  rw [Int64.toInt_add, Int64.toInt_one]
  exact Int.bmod_eq_of_le_mul_two (by omega) (by omega)

/-- A new request waits for its response under a number that no request had before. -/
theorem Good.ask (good : σ.Good) (request : Request)
    (counts : (σ.node i).outSession ≠ Int64.maxValue)
    (session : request.session = (σ.node i).outSession + 1) :
    Good ({ σ with asked := σ.asked ++ [(i, request)] }.setNode i
      ({ σ.node i with outSession := (σ.node i).outSession + 1 }.wait request)) := by
  have next := toInt_add_one counts
  have start := good.positive i
  generalize eq : Net.setNode { σ with asked := σ.asked ++ [(i, request)] } i _ = σ'
  have grows : Grows σ σ' := by
    rw [← eq]
    exact ⟨id, List.mem_append_left _, id⟩
  have asks : ∀ j request', (j, request') ∈ σ'.asked ↔
      (j, request') ∈ σ.asked ∨ j = i ∧ request' = request := by
    intro j request'
    rw [← eq]
    exact List.mem_append.trans (or_congr Iff.rfl (List.mem_singleton.trans Prod.mk_inj))
  have new : ∀ request', (i, request') ∈ σ.asked → request'.session ≠ request.session := by
    intro request' mem same
    have low := (good.fresh i request' mem).2
    rw [same, session, next] at low
    omega
  have counted : (σ'.node i).outSession.toInt = (σ.node i).outSession.toInt + 1 := by
    rw [← eq, setNode_node]
    exact next
  have others : ∀ j, j ≠ i → σ'.node j = σ.node j := by
    intro j ne
    rw [← eq, setNode_other _ _ ne]
  refine ⟨fun j => ?_, fun j => ?_, fun j request' mem => ?_,
    fun j request₁ request₂ mem₁ mem₂ same => ?_, fun c side msg mem => ?_,
    fun j h ok data mem => ?_, fun j request' data mem => ?_⟩
  · by_cases self : j = i
    · subst j
      rw [← eq, setNode_node, eq]
      have node := (good.node i).mono grows
      refine node.lua (fun session' request' waiting => ?_) node.handlers rfl rfl rfl rfl
      by_cases same : session' = request.session
      · simp only [Node.wait, same, Function.update_self, Option.some.injEq] at waiting
        subst waiting
        exact ⟨same.symm, (asks i _).mpr (Or.inr ⟨rfl, rfl⟩)⟩
      · simp only [Node.wait, Function.update_of_ne same] at waiting
        exact node.waits session' request' waiting
    · rw [others j self]
      exact (good.node j).mono grows
  · by_cases self : j = i
    · rw [self, counted]
      omega
    · rw [others j self]
      exact good.positive j
  · rcases (asks j request').mp mem with mem | ⟨rfl, rfl⟩
    · obtain ⟨positive, low⟩ := good.fresh j request' mem
      refine ⟨positive, ?_⟩
      by_cases self : j = i
      · rw [self] at low ⊢
        omega
      · rwa [others j self]
    · rw [counted, session, next]
      omega
  · rcases (asks j request₁).mp mem₁ with old₁ | ⟨rfl, rfl⟩ <;>
      rcases (asks j request₂).mp mem₂ with old₂ | ⟨self, rfl⟩
    · exact good.unique j _ _ old₁ old₂ same
    · rw [self] at old₁
      exact absurd same (new _ old₁)
    · exact absurd same.symm (new _ old₂)
    · rfl
  · rw [← eq] at mem
    exact (good.flight c side msg mem).mono grows
  · rw [← eq] at mem
    exact (good.replied j h ok data mem).mono grows
  · rw [← eq] at mem
    obtain ⟨asked, answered⟩ := good.returned j request' data mem
    exact ⟨grows.asked asked, answered.mono grows⟩

/-- A request on a connection that `node_fd` has for its node. -/
theorem Good.request (good : σ.Good) {node addr payload : List UInt8} {needResponse : Bool}
    (leads : σ.Leads i node)
    (counts : needResponse = true → (σ.node i).outSession ≠ Int64.maxValue) :
    (σ.request i node addr payload needResponse (-1)).Good := by
  cases found : (σ.node i).nodeFd.lookup node with
  | none =>
    have failed : (σ.node i).request node addr payload needResponse (-1) = (σ.node i, none) := by
      unfold Node.request Node.getFd
      rw [found]
      cases ((σ.node i).nodeAddress node).bind Node.hostPort with
      | none => rfl
      | some _ => rfl
    rw [Net.request, failed]
    exact good.same rfl (good.node i)
  | some fd =>
    cases needResponse with
    | false =>
      rw [Net.request, Node.request_send found]
      cases packed : packRequest addr 0 payload with
      | none => exact good.same rfl (good.node i)
      | some msg =>
        refine (good.same rfl (good.node i)).write fun e open_ => ?_
        rw [setNode_node] at open_
        exact carries_request ((good.node i).conns fd e open_) (leads fd found e open_) packed
          (absurd rfl)
    | true =>
      have counts := counts rfl
      have next := toInt_add_one counts
      have start := good.positive i
      have call : (σ.node i).outSession + 1 ≠ 0 := by
        intro zero
        rw [zero, show (0 : Int64).toInt = 0 from rfl] at next
        omega
      rw [Net.request, Node.request_call found call]
      dsimp only
      cases packed : packRequest addr ((σ.node i).outSession + 1) payload with
      | none =>
        refine good.setNode ((good.node i).lua (good.node i).waits (good.node i).handlers
          rfl rfl rfl rfl) ?_
        rw [next]
        omega
      | some msg =>
        have asked := good.ask ⟨node, addr, payload, (σ.node i).outSession + 1⟩ counts rfl
        dsimp only
        rw [if_neg call, write_asked]
        refine asked.write fun e open_ => ?_
        rw [setNode_node] at open_
        exact carries_request ((good.node i).conns fd e open_) (leads fd found e open_) packed
          fun _ => List.mem_append_right _ (List.mem_singleton_self _)

/-- The engine posts a message, which says how it changed a descriptor. -/
theorem Good.engine (good : σ.Good) {mail : Mail} {conns : Int32 → Option End}
    (own : ∀ fd e, conns fd = some e → σ.At i e) (about : σ.At i mail.about)
    (carries : mail.subtype = .data → σ.Carries mail.about.conn mail.buff mail.about.side.peer)
    (moves : mail.Moves ((σ.node i).conns mail.fd) (conns mail.fd))
    (others : ∀ fd, fd ≠ mail.fd → conns fd = (σ.node i).conns fd) :
    ((σ.setNode i { σ.node i with conns }).post i mail).Good := by
  unfold Net.post
  rw [setNode_setNode, setNode_node]
  have node := good.node i
  obtain ⟨view, tracks⟩ := node.tracks
  refine good.same rfl ⟨node.waits, own, fun mail' mem => ?_, node.handlers, view, fun fd => ?_,
    tracks.known, tracks.inFd, tracks.nodeFd⟩
  · rcases List.mem_append.mp mem with mem | mem
    · exact node.mail mail' mem
    · rw [List.mem_singleton.mp mem]
      exact ⟨about, carries⟩
  · refine (tracks.follows fd).append (fun same => ?_) fun other => others fd (Ne.symm other)
    rw [← same]
    exact moves

theorem Good.accept (good : σ.Good) {fd : Int32} {c : Nat}
    (server : (σ.conn[c]?.map (·.server)) = some i) (free : (σ.node i).conns fd = none) :
    ((σ.setNode i { σ.node i with
      conns := Function.update (σ.node i).conns fd (some ⟨c, .inbound⟩) }).post i
        ⟨.accept, fd, [], ⟨c, .inbound⟩⟩).Good := by
  obtain ⟨conn, found, served⟩ := Option.map_eq_some_iff.mp server
  have about : σ.At i ⟨c, .inbound⟩ := ⟨conn, found, served⟩
  have own : ∀ e, some ⟨c, .inbound⟩ = some e → σ.At i e := by
    rintro e ⟨⟩
    exact about
  exact good.engine (at_update (good.node i).conns own) about nofun
    ⟨free, Function.update_self .., rfl⟩ fun fd' ne => Function.update_of_ne ne ..

theorem Good.lose (good : σ.Good) {fd : Int32} {e : End} (failed : Bool)
    (open_ : (σ.node i).conns fd = some e) :
    ((σ.setNode i { σ.node i with conns := Function.update (σ.node i).conns fd none }).post i
      ⟨if failed then .error else .close, fd, [], e⟩).Good := by
  refine good.engine (at_update (good.node i).conns nofun) ((good.node i).conns fd e open_) ?_ ?_
    fun fd' ne => Function.update_of_ne ne ..
  · cases failed <;> nofun
  · cases failed
    all_goals exact ⟨open_, Function.update_self ..⟩

theorem Good.receive (good : σ.Good) {fd : Int32} {e : End} {msg : List UInt8}
    {msgs : List (List UInt8)} (open_ : (σ.node i).conns fd = some e) (flight : σ.flight e.conn e.side.peer = msg :: msgs) :
    ((σ.setFlight e.conn e.side.peer msgs).post i ⟨.data, fd, msg.drop 2, e⟩).Good := by
  have carries : ∀ m ∈ msg :: msgs, σ.Carries e.conn (m.drop 2) e.side.peer := by
    rw [← flight]
    exact good.flight e.conn e.side.peer
  have read := good.setFlight fun m mem => carries m (List.mem_cons_of_mem _ mem)
  have post : (((σ.setFlight e.conn e.side.peer msgs).setNode i
      ((σ.setFlight e.conn e.side.peer msgs).node i)).post i ⟨.data, fd, msg.drop 2, e⟩).Good :=
    read.engine (good.node i).conns
      ((good.node i).conns fd e open_) (fun _ => carries msg (List.mem_cons_self ..)) ⟨open_, rfl⟩
      fun _ _ => rfl
  rwa [setNode_self] at post

/-- `get_fd` makes a connection: `clusterd` has handled every message about the number of its
descriptor. -/
theorem Good.connect (good : σ.Good) {node : List UInt8} {fd : Int32} {server : ι}
    (absent : (σ.node i).nodeFd.lookup node = none) (free : (σ.node i).conns fd = none)
    (handled : ∀ mail ∈ (σ.node i).inbox, mail.fd ≠ fd) :
    ((σ.connect i node fd server).setNode i { (σ.connect i node fd server).node i with
      nodeFd := (σ.node i).nodeFd.insert node fd }).Good := by
  generalize eq : (σ.connect i node fd server).setNode i _ = σ'
  have conn : σ'.conn = σ.conn ++ [⟨i, server, node⟩] := by
    rw [← eq]
    rfl
  have grows : Grows σ σ' := by
    rw [← eq]
    refine ⟨fun found => ?_, id, id⟩
    exact (List.getElem?_append_left (List.getElem?_eq_some_iff.mp found).1).trans found
  have made : σ'.conn[σ.conn.length]? = some ⟨i, server, node⟩ := by
    rw [conn, List.getElem?_concat_length]
  have others : ∀ j, j ≠ i → σ'.node j = σ.node j := by
    intro j ne
    rw [← eq, setNode_other _ _ ne]
    exact setNode_other σ _ ne
  have own : σ'.node i = { σ.node i with
      conns := Function.update (σ.node i).conns fd (some ⟨σ.conn.length, .outbound⟩)
      nodeFd := (σ.node i).nodeFd.insert node fd } := by
    rw [← eq, setNode_node]
    show ({ (σ.setNode i _).node i with nodeFd := _ } : Node) = _
    rw [setNode_node]
  have counted : ∀ j, (σ'.node j).outSession = (σ.node j).outSession := by
    intro j
    by_cases self : j = i
    · rw [self, own]
    · rw [others j self]
  refine ⟨fun j => ?_, fun j => ?_, fun j request mem => ?_, ?_, fun c side msg mem => ?_,
    fun j h ok data mem => ?_, fun j request data mem => ?_⟩
  · by_cases self : j = i
    · subst j
      rw [own]
      exact ((good.node i).mono grows).connect made rfl absent free handled
    · rw [others j self]
      exact (good.node j).mono grows
  · rw [counted]
    exact good.positive j
  · rw [counted]
    rw [← eq] at mem
    exact good.fresh j request mem
  · rw [← eq]
    exact good.unique
  · rw [← eq] at mem
    exact (good.flight c side msg mem).mono grows
  · rw [← eq] at mem
    exact (good.replied j h ok data mem).mono grows
  · rw [← eq] at mem
    obtain ⟨asked, answered⟩ := good.returned j request data mem
    exact ⟨grows.asked asked, answered.mono grows⟩

/-- A packet is a request if `clusterd` has accepted its connection, and a response if it has made
the connection. -/
theorem Good.data (good : σ.Good) {mail : Mail} {rest : List Mail} {found : Option (List UInt8)}
    (waiting : (σ.node i).inbox = mail :: rest) (subtype : mail.subtype = .data)
    (keeps : ∀ h, (σ.node i).asks mail = some h →
      (σ.node i).answerAtOnce tonumber h ≠ none → σ.Keeps i h) :
    ((σ.setNode i { σ.node i with inbox := rest }).dispatch tonumber i mail found).Good := by
  have node := good.node i
  unfold Net.dispatch
  rw [setNode_node, subtype]
  have popped : (σ.setNode i { σ.node i with inbox := rest }).Good := by
    refine good.same rfl (node.skip waiting fun v v' moves => ?_)
    unfold Mail.Moves at moves
    rw [subtype] at moves
    exact moves.2
  obtain ⟨view, tracks⟩ := node.tracks
  obtain ⟨v, moves, -⟩ := tracks.next waiting
  unfold Mail.Moves at moves
  rw [subtype] at moves
  obtain ⟨seen, -⟩ := moves
  obtain ⟨own, carries⟩ := node.mail mail (by rw [waiting]; exact List.mem_cons_self ..)
  have carries := carries subtype
  cases side : mail.about.side with
  | inbound =>
    rw [side] at carries
    obtain ⟨j, h, unpacked, on, conn, made, server, asked⟩ := carries
    have taken : (σ.node i).inFd mail.fd = true :=
      (tracks.inFd mail.fd).mpr ⟨mail.about.conn, by rw [seen, ← side]⟩
    have asks : (σ.node i).asks mail =
        some ⟨mail.fd, h.addr, h.session, h.payload, mail.about.conn⟩ := by
      unfold Node.asks
      rw [if_pos ⟨subtype, taken⟩, unpacked]
      rfl
    have mine : conn.server = i := by
      obtain ⟨conn', made', served⟩ := own
      rw [on] at made
      cases made.symm.trans made'
      rwa [side] at served
    have serves : σ.Serves i ⟨mail.fd, h.addr, h.session, h.payload, mail.about.conn⟩ :=
      ⟨conn, by rw [← on]; exact made, mine, asked⟩
    have same : ({ σ.node i with inbox := rest } : Node).asks mail = (σ.node i).asks mail := rfl
    dsimp only
    rw [if_pos taken, same, asks]
    refine popped.handleRequest serves fun atOnce e open_ => ?_
    rw [setNode_node] at atOnce open_
    exact keeps _ asks atOnce e open_
  | outbound =>
    have other : ¬ (σ.node i).inFd mail.fd = true := by
      rw [tracks.inFd, seen]
      rintro ⟨c, inbound⟩
      rw [Option.some.inj inbound] at side
      cases side
    rw [side] at carries
    dsimp only
    rw [if_neg other]
    refine popped.handleResponse (c := mail.about.conn) ?_ carries
    rw [← side]
    exact own

theorem Good.handle (good : σ.Good) {mail : Mail} {rest : List Mail} {found : Option (List UInt8)}
    (waiting : (σ.node i).inbox = mail :: rest)
    (finds : mail.subtype = .error ∨ mail.subtype = .close → (σ.node i).Finds mail.fd found)
    (keeps : ∀ h, (σ.node i).asks mail = some h →
      (σ.node i).answerAtOnce tonumber h ≠ none → σ.Keeps i h) :
    ((σ.setNode i { σ.node i with inbox := rest }).dispatch tonumber i mail found).Good := by
  by_cases data : mail.subtype = .data
  · exact good.data waiting data keeps
  have node := good.node i
  have closes : mail.subtype = .error ∨ mail.subtype = .close →
      ((σ.setNode i { σ.node i with inbox := rest }).setNode i
        ({ σ.node i with inbox := rest }.dropNode mail.fd found)).Good := by
    intro closed
    rw [setNode_setNode]
    refine good.same ?_ (node.close waiting (fun v v' moves => ?_) (finds closed))
    · cases found <;> rfl
    · rcases closed with closed | closed
      all_goals
        unfold Mail.Moves at moves
        rwa [closed] at moves
  unfold Net.dispatch
  rw [setNode_node]
  cases subtype : mail.subtype with
  | accept =>
    dsimp only
    rw [setNode_setNode]
    exact good.same rfl (node.accept waiting subtype)
  | data => exact absurd subtype data
  | error => exact closes (Or.inl subtype)
  | close => exact closes (Or.inr subtype)
  | connect | udp | warning =>
    refine good.same rfl (node.skip waiting fun v v' moves => ?_)
    unfold Mail.Moves at moves
    rwa [subtype] at moves

theorem Good.step (good : σ.Good) {op : Op ι} (step : σ.perform tonumber op = some σ')
    (keeps : KeepsNumbers tonumber σ op) : σ'.Good := by
  cases performs_of_perform step with
  | accept server free => exact (good.setAccepted _).accept server free
  | receive isOpen flight => exact good.receive isOpen flight
  | lose failed isOpen => exact good.lose failed isOpen
  | request i node addr payload needResponse => exact good.request keeps.1 keeps.2
  | @connect i node addr payload needResponse fd server absent address valid free =>
    have own : (σ.connect i node fd server).node i = { σ.node i with
        conns := Function.update (σ.node i).conns fd (some ⟨σ.conn.length, .outbound⟩) } :=
      setNode_node σ i _
    obtain ⟨parsed, address⟩ := Option.isSome_iff_exists.mp address
    have got : ((σ.connect i node fd server).node i).getFd node fd =
        some (fd, { (σ.connect i node fd server).node i with
          nodeFd := (σ.node i).nodeFd.insert node fd }) := by
      simp only [Node.getFd, own, absent, address, if_neg (Int32.not_lt.mpr valid)]
    rw [request_getFd got (AList.lookup_insert _)]
    refine (good.connect absent free keeps.1).request (fun fd' listed e open_ => ?_) fun call => ?_
    · rw [setNode_node] at listed open_
      cases (AList.lookup_insert (σ.node i).nodeFd).symm.trans listed
      rw [own] at open_
      simp only [Function.update_self, Option.mem_def, Option.some.injEq] at open_
      subst open_
      exact ⟨rfl, _, List.getElem?_concat_length, rfl⟩
    · rw [setNode_node, own]
      exact keeps.2 call
  | register i source name addr =>
    have node := good.node i
    exact good.same rfl (node.lua node.waits node.handlers rfl rfl rfl rfl)
  | unregister i name =>
    have node := good.node i
    unfold Node.unregister
    split
    · exact good.same rfl (node.lua node.waits node.handlers rfl rfl rfl rfl)
    · exact good.same rfl node
  | reload i nodeAddress =>
    have node := good.node i
    exact good.same rfl (node.lua node.waits node.handlers rfl rfl rfl rfl)
  | @handle i found mail rest waiting finds =>
    exact good.handle waiting finds (keeps mail (by rw [waiting]; rfl))
  | @reply i h ok data mem =>
    have node := good.node i
    have removed : (σ.setNode i { σ.node i with
        handlers := (σ.node i).handlers.erase h }).Good :=
      good.same rfl (node.lua node.waits (fun h' mem => node.handlers h' (List.mem_of_mem_erase mem))
        rfl rfl rfl rfl)
    refine removed.respond (node.handlers h mem) (fun e open_ => ?_) ok data
    rw [setNode_node] at open_
    exact keeps e open_

end

end Net

/-- In every run that keeps the numbers of the descriptors apart, a request that succeeds returns
its own answer. -/
theorem ownAnswers_of_keepsNumbers [DecidableEq ι] {tr : List (Op ι)}
    (run : ((network ι tonumber).restrict (KeepsNumbers tonumber)).Run σ tr) : σ.OwnAnswers := by
  have good : σ.Good := run.stateInvariant
    (by rintro s rfl; exact Net.initial_good) fun s op s' good step => good.step step.1 step.2
  intro i request data mem
  obtain ⟨asked, answered⟩ := good.returned i request data mem
  exact ⟨answered, fun request' mem' same => good.unique i _ _ mem' asked same⟩

/-- In the runs below a service has the address "1". -/
def one (addr : List UInt8) : Option Handle := if addr = [0x31] then some (.string addr) else none

/-- The node "B" is at "h:1". -/
def nodeB (node : List UInt8) : Option (List UInt8) :=
  if node = [0x42] then some [0x68, 0x3a, 0x31] else none

/-- Node 0 calls the service "1" of node 1 with payload 7, and the handler waits for the service. -/
def called : List (Op (Fin 3)) :=
  [.reload 0 nodeB, .connect 0 [0x42] [0x31] [7] true 5 1, .accept 1 5 0, .handle 1 none,
    .receive 1 5, .handle 1 none]

/-- The connection breaks, and node 2 calls the service with payload 8 on a connection that node 1
accepts with the same descriptor. -/
def calledAgain : List (Op (Fin 3)) :=
  [.lose 1 5 false, .handle 1 none, .reload 2 nodeB, .connect 2 [0x42] [0x31] [8] true 5 1,
    .accept 1 5 1, .handle 1 none, .receive 1 5, .handle 1 none]

/-- The call returns what the service replied. -/
theorem ownAnswers_reply : ∃ (σ : Net (Fin 3)) (tr : List (Op (Fin 3))),
    ((network (Fin 3) one).restrict (KeepsNumbers one)).Run σ tr ∧
    σ.returned = [(0, ⟨[0x42], [0x31], [7], 1⟩, [9])] ∧ σ.OwnAnswers := by
  let ops : List (Op (Fin 3)) :=
    called ++ [.reply 1 ⟨5, [0x31], 1, [7], 0⟩ true [9], .receive 0 5, .handle 0 none]
  let next (σ : Net (Fin 3)) (op : Op (Fin 3)) : Option (Net (Fin 3)) :=
    if KeepsNumbers one σ op then σ.perform one op else none
  have sound : ∀ σ op σ', next σ op = some σ' →
      ((network (Fin 3) one).restrict (KeepsNumbers one)).step σ op σ' := by
    intro σ op σ' h
    obtain ⟨keeps, h⟩ := Option.ite_none_right_eq_some.mp h
    exact ⟨h, keeps⟩
  have results : (ops.foldlM next .initial).map (·.returned) =
      some [(0, ⟨[0x42], [0x31], [7], 1⟩, [9])] := by decide +kernel
  obtain ⟨σ, steps, returned⟩ := Option.map_eq_some_iff.mp results
  have run := (Transition.System.Run.init rfl).foldlM sound steps
  exact ⟨σ, _, run, returned, ownAnswers_of_keepsNumbers run⟩

/-- The answer to the call of node 0 is returned by the call of node 2. -/
theorem not_ownAnswers_reused : ¬∀ (σ : Net (Fin 3)) (tr : List (Op (Fin 3))),
    (network (Fin 3) one).Run σ tr → σ.OwnAnswers := by
  intro claim
  let ops : List (Op (Fin 3)) := called ++ calledAgain ++
    [.reply 1 ⟨5, [0x31], 1, [7], 0⟩ true [9], .receive 2 5, .handle 2 none]
  have results : (ops.foldlM (Net.perform one) .initial).map (·.returned) =
      some [(2, ⟨[0x42], [0x31], [8], 1⟩, [9])] := by decide +kernel
  have replies : (ops.foldlM (Net.perform one) .initial).map (·.replied) =
      some [(1, ⟨5, [0x31], 1, [7], 0⟩, true, [9])] := by decide +kernel
  obtain ⟨σ, steps, returned⟩ := Option.map_eq_some_iff.mp results
  have replied : σ.replied = [(1, ⟨5, [0x31], 1, [7], 0⟩, true, [9])] := by
    rw [steps] at replies
    exact Option.some.inj replies
  have run : (network (Fin 3) one).Run σ ([] ++ ops) :=
    (Transition.System.Run.init rfl).foldlM (fun _ _ _ h => h) steps
  obtain ⟨⟨h, conn, -, answer, -, -, -, payload, -⟩, -⟩ := claim σ _ run 2 _ _
    (by rw [returned]; exact List.mem_singleton_self _)
  rw [replied, List.mem_singleton] at answer
  rw [show h = ⟨5, [0x31], 1, [7], 0⟩ from congrArg (·.2.1) answer] at payload
  exact absurd payload (by decide)

end Starnet.Clusterd
