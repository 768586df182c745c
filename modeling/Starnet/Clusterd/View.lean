import Starnet.Clusterd.Network

/-! What the tables of `clusterd` and the packets of the connections stand for. `clusterd` learns
from the messages of the engine, in their order, which connection a descriptor belongs to; the
invariant says what each packet on its way carries and which request a coroutine waits for. -/

namespace Starnet.Clusterd

variable {ι : Type*} {tonumber : List UInt8 → Option Handle} {σ σ' : Net ι} {i : ι}

/-! ### The connection that `clusterd` takes a descriptor for -/

/-- What a message says about its descriptor: it stood for `v` before and stands for `v'` after. -/
def Mail.Moves (mail : Mail) (v v' : Option End) : Prop :=
  match mail.subtype with
  | .accept => v = none ∧ v' = some mail.about ∧ mail.about.side = .inbound
  | .data => v = some mail.about ∧ v' = v
  | .error | .close => v = some mail.about ∧ v' = none
  | .connect | .udp | .warning => v' = v

/-- The messages about `fd` lead from `v` to `w`. -/
def Follows (fd : Int32) (w : Option End) : Option End → List Mail → Prop
  | v, [] => v = w
  | v, mail :: rest =>
    if mail.fd = fd then ∃ v', mail.Moves v v' ∧ Follows fd w v' rest else Follows fd w v rest

section

variable {fd : Int32} {v w w' : Option End} {mail : Mail} {mails : List Mail}

theorem Follows.append (h : Follows fd w v mails) (same : mail.fd = fd → mail.Moves w w')
    (other : mail.fd ≠ fd → w' = w) : Follows fd w' v (mails ++ [mail]) := by
  induction mails generalizing v with
  | nil =>
    have eq : v = w := h
    rw [List.nil_append, Follows]
    split
    · next about =>
      rw [eq]
      exact ⟨w', same about, rfl⟩
    · next about => exact eq.trans (other about).symm
  | cons first mails ih =>
    rw [List.cons_append]
    unfold Follows at h ⊢
    split
    · next about =>
      rw [if_pos about] at h
      obtain ⟨v', moves, h⟩ := h
      exact ⟨v', moves, ih h⟩
    · next about =>
      rw [if_neg about] at h
      exact ih h

theorem Follows.absent (h : Follows fd w v mails) (absent : ∀ mail ∈ mails, mail.fd ≠ fd) :
    v = w := by
  induction mails with
  | nil => exact h
  | cons mail mails ih =>
    unfold Follows at h
    rw [if_neg (absent mail (List.mem_cons_self ..))] at h
    exact ih h fun mail mem => absent mail (List.mem_cons_of_mem _ mem)

theorem follows_absent (absent : ∀ mail ∈ mails, mail.fd ≠ fd) : Follows fd v v mails := by
  induction mails with
  | nil => rfl
  | cons mail mails ih =>
    unfold Follows
    rw [if_neg (absent mail (List.mem_cons_self ..))]
    exact ih fun mail mem => absent mail (List.mem_cons_of_mem _ mem)

theorem Follows.first (h : Follows fd w v (mail :: mails)) (about : mail.fd = fd) :
    ∃ v', mail.Moves v v' ∧ Follows fd w v' mails := by
  unfold Follows at h
  rwa [if_pos about] at h

theorem Follows.skip (h : Follows fd w v (mail :: mails)) (about : mail.fd ≠ fd) :
    Follows fd w v mails := by
  unfold Follows at h
  rwa [if_neg about] at h

end

/-! ### What the packets carry -/

namespace Net

/-- End `e` belongs to node `i`. -/
def At (σ : Net ι) (i : ι) (e : End) : Prop :=
  ∃ conn, σ.conn[e.conn]? = some conn ∧ match e.side with
    | .outbound => conn.client = i
    | .inbound => conn.server = i

/-- The request came on its connection, and the client asked for it. -/
def Serves (σ : Net ι) (i : ι) (h : Handler) : Prop :=
  ∃ conn, σ.conn[h.conn]? = some conn ∧ conn.server = i ∧
    (h.session ≠ 0 → (conn.client, ⟨conn.node, h.addr, h.payload, h.session⟩) ∈ σ.asked)

/-- What an end of a connection writes: requests of the client, answers of the server. -/
def Carries (σ : Net ι) (conn : Nat) (packet : List UInt8) : Side → Prop
  | .outbound => ∃ i h, unpackRequest packet = some (h.addr, h.session, h.payload) ∧
      h.conn = conn ∧ σ.Serves i h
  | .inbound => ∃ i h ok data, unpackResponse packet = some (h.session, ok, data) ∧ h.conn = conn ∧
      (i, h, ok, data) ∈ σ.replied

/-- The tables of a node agree with `view`, the end that each descriptor stands for at the messages
handled so far. -/
structure Tracks (σ : Net ι) (i : ι) (s : Node) (view : Int32 → Option End) : Prop where
  follows : ∀ fd, Follows fd (s.conns fd) (view fd) s.inbox
  known : ∀ fd e, view fd = some e → σ.At i e
  inFd : ∀ fd, s.inFd fd = true ↔ ∃ conn, view fd = some ⟨conn, .inbound⟩
  nodeFd : ∀ node fd, s.nodeFd.lookup node = some fd ↔
    ∃ c conn, view fd = some ⟨c, .outbound⟩ ∧ σ.conn[c]? = some conn ∧ conn.node = node

/-- The part of the invariant about the state of node `i`. -/
structure NodeGood (σ : Net ι) (i : ι) (s : Node) : Prop where
  waits : ∀ session request, s.sessionCb session = some request →
    request.session = session ∧ (i, request) ∈ σ.asked
  conns : ∀ fd e, s.conns fd = some e → σ.At i e
  mail : ∀ mail ∈ s.inbox, σ.At i mail.about ∧
    (mail.subtype = .data → σ.Carries mail.about.conn mail.buff mail.about.side.peer)
  handlers : ∀ h ∈ s.handlers, σ.Serves i h
  tracks : ∃ view, σ.Tracks i s view

structure Good (σ : Net ι) : Prop where
  node : ∀ i, σ.NodeGood i (σ.node i)
  positive : ∀ i, 0 ≤ (σ.node i).outSession.toInt
  fresh : ∀ i request, (i, request) ∈ σ.asked →
    0 < request.session.toInt ∧ request.session.toInt ≤ (σ.node i).outSession.toInt
  unique : ∀ i request request', (i, request) ∈ σ.asked → (i, request') ∈ σ.asked →
    request.session = request'.session → request = request'
  flight : ∀ c side, ∀ msg ∈ σ.flight c side, σ.Carries c (msg.drop 2) side
  replied : ∀ i h ok data, (i, h, ok, data) ∈ σ.replied → σ.Serves i h
  returned : ∀ i request data, (i, request, data) ∈ σ.returned →
    (i, request) ∈ σ.asked ∧ σ.Answered i request data

/-! ### The history only grows -/

structure Grows (σ σ' : Net ι) : Prop where
  conn : ∀ {c : Nat} {conn : Conn ι}, σ.conn[c]? = some conn → σ'.conn[c]? = some conn
  asked : ∀ {a}, a ∈ σ.asked → a ∈ σ'.asked
  replied : ∀ {a}, a ∈ σ.replied → a ∈ σ'.replied

section

variable (grows : Grows σ σ')

include grows

theorem At.mono {e : End} : σ.At i e → σ'.At i e := by
  rintro ⟨conn, found, side⟩
  exact ⟨conn, grows.conn found, side⟩

theorem Serves.mono {h : Handler} : σ.Serves i h → σ'.Serves i h := by
  rintro ⟨conn, found, server, asked⟩
  exact ⟨conn, grows.conn found, server, fun call => grows.asked (asked call)⟩

theorem Carries.mono {c : Nat} {packet : List UInt8} {side : Side} :
    σ.Carries c packet side → σ'.Carries c packet side := by
  cases side with
  | outbound =>
    rintro ⟨i, h, unpacked, on, serves⟩
    exact ⟨i, h, unpacked, on, serves.mono grows⟩
  | inbound =>
    rintro ⟨i, h, ok, data, unpacked, on, replied⟩
    exact ⟨i, h, ok, data, unpacked, on, grows.replied replied⟩

theorem Answered.mono {request : Request} {data : List UInt8} :
    σ.Answered i request data → σ'.Answered i request data := by
  rintro ⟨h, conn, found, replied, rest⟩
  exact ⟨h, conn, grows.conn found, grows.replied replied, rest⟩

theorem Tracks.mono {s : Node} {view : Int32 → Option End} (h : σ.Tracks i s view) :
    σ'.Tracks i s view where
  follows := h.follows
  known fd e found := (h.known fd e found).mono grows
  inFd := h.inFd
  nodeFd node fd := by
    rw [h.nodeFd]
    constructor
    · rintro ⟨c, conn, taken, found, named⟩
      exact ⟨c, conn, taken, grows.conn found, named⟩
    · rintro ⟨c, conn, taken, found, named⟩
      obtain ⟨conn', found', -⟩ := h.known fd _ taken
      have same := found.symm.trans (grows.conn found')
      cases same
      exact ⟨c, conn, taken, found', named⟩

theorem NodeGood.mono {s : Node} (h : σ.NodeGood i s) : σ'.NodeGood i s where
  waits session request waiting :=
    ⟨(h.waits session request waiting).1, grows.asked (h.waits session request waiting).2⟩
  conns fd e found := (h.conns fd e found).mono grows
  mail mail mem := by
    obtain ⟨own, carries⟩ := h.mail mail mem
    exact ⟨own.mono grows, fun data => (carries data).mono grows⟩
  handlers handler mem := (h.handlers handler mem).mono grows
  tracks := by
    obtain ⟨view, tracks⟩ := h.tracks
    exact ⟨view, tracks.mono grows⟩

end

/-- A table of ends in which one descriptor changes. -/
theorem at_update {ends : Int32 → Option End} {fd : Int32} {changed : Option End}
    (others : ∀ fd e, ends fd = some e → σ.At i e) (own : ∀ e, changed = some e → σ.At i e)
    (fd' : Int32) (e : End) (here : Function.update ends fd changed fd' = some e) : σ.At i e := by
  by_cases same : fd' = fd
  · rw [same, Function.update_self] at here
    exact own e here
  · rw [Function.update_of_ne same] at here
    exact others fd' e here

/-- A step of the Lua code that leaves the descriptors and the messages alone. -/
theorem NodeGood.lua {s s' : Node} (node : σ.NodeGood i s)
    (waits : ∀ session request, s'.sessionCb session = some request →
      request.session = session ∧ (i, request) ∈ σ.asked)
    (handlers : ∀ h ∈ s'.handlers, σ.Serves i h) (nodeFd : s'.nodeFd = s.nodeFd)
    (inFd : s'.inFd = s.inFd) (conns : s'.conns = s.conns) (inbox : s'.inbox = s.inbox) :
    σ.NodeGood i s' := by
  refine ⟨waits, by rw [conns]; exact node.conns, by rw [inbox]; exact node.mail, handlers, ?_⟩
  obtain ⟨view, tracks⟩ := node.tracks
  exact ⟨view, by rw [conns, inbox]; exact tracks.follows, tracks.known,
    by rw [inFd]; exact tracks.inFd, by rw [nodeFd]; exact tracks.nodeFd⟩

/-! ### Handling a message -/

section

variable {s : Node} {mail : Mail} {rest : List Mail}

/-- The first message tells what its descriptor stands for from then on. -/
theorem Tracks.next {view : Int32 → Option End} (tracks : σ.Tracks i s view)
    (waiting : s.inbox = mail :: rest) : ∃ v, mail.Moves (view mail.fd) v ∧
      ∀ fd, Follows fd (s.conns fd) (Function.update view mail.fd v fd) rest := by
  have follows := tracks.follows
  rw [waiting] at follows
  obtain ⟨v, moves, after⟩ := (follows mail.fd).first rfl
  refine ⟨v, moves, fun fd => ?_⟩
  by_cases same : fd = mail.fd
  · subst same
    rwa [Function.update_self]
  · rw [Function.update_of_ne same]
    exact (follows fd).skip (Ne.symm same)

theorem NodeGood.dispatched (node : σ.NodeGood i s) (waiting : s.inbox = mail :: rest) :
    ∀ mail ∈ rest, σ.At i mail.about ∧
      (mail.subtype = .data → σ.Carries mail.about.conn mail.buff mail.about.side.peer) :=
  fun mail mem => node.mail mail (by rw [waiting]; exact List.mem_cons_of_mem _ mem)

/-- A message that leaves the descriptors as they are. -/
theorem NodeGood.skip (node : σ.NodeGood i s) (waiting : s.inbox = mail :: rest)
    (stays : ∀ v v', mail.Moves v v' → v' = v) : σ.NodeGood i { s with inbox := rest } := by
  obtain ⟨view, tracks⟩ := node.tracks
  obtain ⟨v, moves, follows⟩ := tracks.next waiting
  rw [stays _ _ moves, Function.update_eq_self] at follows
  exact ⟨node.waits, node.conns, node.dispatched waiting, node.handlers, view, follows, tracks.known,
    tracks.inFd, tracks.nodeFd⟩

theorem NodeGood.accept (node : σ.NodeGood i s) (waiting : s.inbox = mail :: rest)
    (accept : mail.subtype = .accept) :
    σ.NodeGood i { s with inbox := rest, inFd := Function.update s.inFd mail.fd true } := by
  obtain ⟨view, tracks⟩ := node.tracks
  obtain ⟨v, moves, follows⟩ := tracks.next waiting
  have about : σ.At i mail.about := (node.mail mail (by rw [waiting]; exact List.mem_cons_self ..)).1
  unfold Mail.Moves at moves
  rw [accept] at moves
  obtain ⟨free, rfl, side⟩ := moves
  have own : ∀ e, some mail.about = some e → σ.At i e := by
    intro e eq
    rwa [← Option.some.inj eq]
  refine ⟨node.waits, node.conns, node.dispatched waiting, node.handlers, _, follows,
    at_update tracks.known own, fun fd => ?_, fun name fd => ?_⟩
  all_goals by_cases same : fd = mail.fd
  · subst same
    simp only [Function.update_self, Option.some.injEq, true_iff]
    exact ⟨mail.about.conn, by rw [← side]⟩
  · simp only [Function.update_of_ne same]
    exact tracks.inFd fd
  · subst same
    have inbound : ∀ c, mail.about ≠ ⟨c, .outbound⟩ := by
      intro c eq
      rw [eq] at side
      cases side
    simp only [tracks.nodeFd, free, Function.update_self, Option.some.injEq, inbound, reduceCtorEq]
  · simp only [Function.update_of_ne same]
    exact tracks.nodeFd name fd

/-- The loop of `drop_node` finds the node of an outbound connection, and none for an inbound one.
-/
theorem Tracks.found {view : Int32 → Option End} (tracks : σ.Tracks i s view) {fd : Int32} {e : End}
    (seen : view fd = some e) {found : Option (List UInt8)} (finds : s.Finds fd found) :
    match found with
    | some name => e.side = .outbound ∧ ∃ conn, σ.conn[e.conn]? = some conn ∧ conn.node = name
    | none => e.side = .inbound := by
  cases found with
  | some name =>
    obtain ⟨c, conn, seen', known, named⟩ := (tracks.nodeFd name fd).mp finds
    cases seen.symm.trans seen'
    exact ⟨rfl, conn, known, named⟩
  | none =>
    obtain ⟨c, side⟩ := e
    cases side with
    | inbound => rfl
    | outbound =>
      obtain ⟨conn, known, -⟩ := tracks.known fd _ seen
      have listed := (tracks.nodeFd conn.node fd).mpr ⟨c, conn, seen, known, rfl⟩
      exact absurd rfl (finds _ (AList.mem_lookup_iff.mp listed))

theorem NodeGood.close (node : σ.NodeGood i s) (waiting : s.inbox = mail :: rest)
    (closes : ∀ v v', mail.Moves v v' → v = some mail.about ∧ v' = none)
    {found : Option (List UInt8)} (finds : s.Finds mail.fd found) :
    σ.NodeGood i ({ s with inbox := rest }.dropNode mail.fd found) := by
  obtain ⟨view, tracks⟩ := node.tracks
  obtain ⟨v, moves, follows⟩ := tracks.next waiting
  obtain ⟨seen, rfl⟩ := closes _ _ moves
  have side := tracks.found seen finds
  have known : ∀ fd e, Function.update view mail.fd none fd = some e → σ.At i e :=
    at_update tracks.known nofun
  cases found with
  | some name =>
    obtain ⟨outbound, conn, made, named⟩ := side
    refine ⟨fun session request waits => ?_, node.conns, node.dispatched waiting, node.handlers, _,
      follows, known, fun fd => ?_, fun name' fd => ?_⟩
    · simp only [Node.dropNode] at waits
      split at waits
      · cases waits
      · exact node.waits session request waits
    · show s.inFd fd = true ↔ _
      by_cases same : fd = mail.fd
      · have other : ∀ c, mail.about ≠ ⟨c, .inbound⟩ := by
          intro c eq
          rw [eq] at outbound
          cases outbound
        simp only [same, tracks.inFd, seen, Function.update_self, Option.some.injEq, other,
          reduceCtorEq]
      · rw [Function.update_of_ne same]
        exact tracks.inFd fd
    · show (s.nodeFd.erase name).lookup name' = some fd ↔ _
      have mine : s.nodeFd.lookup name = some mail.fd := finds
      by_cases self : name' = name
      · subst self
        rw [AList.lookup_erase]
        refine ⟨nofun, ?_⟩
        rintro ⟨c, conn', seen', rest⟩
        by_cases same : fd = mail.fd
        · rw [same, Function.update_self] at seen'
          cases seen'
        · rw [Function.update_of_ne same] at seen'
          have again := (tracks.nodeFd name' fd).mpr ⟨c, conn', seen', rest⟩
          exact absurd (Option.some.inj (again.symm.trans mine)) same
      · rw [AList.lookup_erase_ne self, tracks.nodeFd]
        by_cases same : fd = mail.fd
        · subst same
          rw [Function.update_self]
          refine ⟨?_, fun ⟨c, conn', seen', _⟩ => nomatch seen'⟩
          rintro ⟨c, conn', seen', made', rfl⟩
          rw [Option.some.inj (seen.symm.trans seen')] at made
          cases made.symm.trans made'
          exact absurd named self
        · rw [Function.update_of_ne same]
  | none =>
    have inbound : mail.about.side = .inbound := side
    refine ⟨node.waits, node.conns, node.dispatched waiting, node.handlers, _,
      follows, known, fun fd => ?_, fun name fd => ?_⟩
    · show Function.update s.inFd mail.fd false fd = true ↔ _
      by_cases same : fd = mail.fd
      · simp only [same, Function.update_self, Bool.false_eq_true, reduceCtorEq, exists_false]
      · rw [Function.update_of_ne same, Function.update_of_ne same]
        exact tracks.inFd fd
    · show s.nodeFd.lookup name = some fd ↔ _
      rw [tracks.nodeFd]
      by_cases same : fd = mail.fd
      · have other : ∀ c, mail.about ≠ ⟨c, .outbound⟩ := by
          intro c eq
          rw [eq] at inbound
          cases inbound
        simp only [same, seen, Function.update_self, Option.some.injEq, other, reduceCtorEq]
      · rw [Function.update_of_ne same]

/-- A node gets a connection under a descriptor about which no message waits. -/
theorem Tracks.connect {view : Int32 → Option End} (tracks : σ.Tracks i s view) {fd : Int32}
    {c : Nat} {conn : Conn ι} (made : σ.conn[c]? = some conn) (client : conn.client = i)
    (absent : s.nodeFd.lookup conn.node = none) (free : s.conns fd = none)
    (handled : ∀ mail ∈ s.inbox, mail.fd ≠ fd) :
    σ.Tracks i { s with
      conns := Function.update s.conns fd (some ⟨c, .outbound⟩)
      nodeFd := s.nodeFd.insert conn.node fd }
      (Function.update view fd (some ⟨c, .outbound⟩)) := by
  have unseen : view fd = none := ((tracks.follows fd).absent handled).trans free
  have own : ∀ e, some ⟨c, .outbound⟩ = some e → σ.At i e := by
    rintro e ⟨⟩
    exact ⟨conn, made, client⟩
  refine ⟨fun fd' => ?_, at_update tracks.known own, fun fd' => ?_, fun node fd' => ?_⟩
  · by_cases same : fd' = fd
    · simp only [same, Function.update_self]
      exact follows_absent handled
    · simp only [Function.update_of_ne same]
      exact tracks.follows fd'
  · by_cases same : fd' = fd
    · simp [same, tracks.inFd, unseen]
    · rw [Function.update_of_ne same]
      exact tracks.inFd fd'
  · constructor
    · intro found
      by_cases named : node = conn.node
      · subst named
        cases AList.lookup_insert (a := conn.node) (b := fd) s.nodeFd ▸ found
        exact ⟨c, conn, Function.update_self .., made, rfl⟩
      · rw [AList.lookup_insert_ne named] at found
        obtain ⟨c', conn', seen, rest⟩ := (tracks.nodeFd node fd').mp found
        have same : fd' ≠ fd := by
          rintro rfl
          exact absurd (unseen.symm.trans seen) nofun
        exact ⟨c', conn', (Function.update_of_ne same ..).trans seen, rest⟩
    · rintro ⟨c', conn', seen, found, rfl⟩
      by_cases same : fd' = fd
      · subst same
        rw [Function.update_self] at seen
        cases seen
        cases made.symm.trans found
        exact AList.lookup_insert _
      · rw [Function.update_of_ne same] at seen
        have known := (tracks.nodeFd conn'.node fd').mpr ⟨c', conn', seen, found, rfl⟩
        have named : conn'.node ≠ conn.node := by
          intro named
          rw [named, absent] at known
          cases known
        exact (AList.lookup_insert_ne named).trans known

theorem NodeGood.connect (node : σ.NodeGood i s) {fd : Int32} {c : Nat} {conn : Conn ι}
    (made : σ.conn[c]? = some conn) (client : conn.client = i)
    (absent : s.nodeFd.lookup conn.node = none) (free : s.conns fd = none)
    (handled : ∀ mail ∈ s.inbox, mail.fd ≠ fd) :
    σ.NodeGood i { s with
      conns := Function.update s.conns fd (some ⟨c, .outbound⟩)
      nodeFd := s.nodeFd.insert conn.node fd } := by
  have own : ∀ e, some ⟨c, .outbound⟩ = some e → σ.At i e := by
    rintro e ⟨⟩
    exact ⟨conn, made, client⟩
  obtain ⟨view, tracks⟩ := node.tracks
  exact ⟨node.waits, at_update node.conns own, node.mail, node.handlers, _,
    tracks.connect made client absent free handled⟩

end

end Net

end Starnet.Clusterd
