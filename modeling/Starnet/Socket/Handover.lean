import Starnet.Socket.Descriptor

/-! What the services know of a descriptor while it goes from one connection to the next. A service
that knows a connection has its `CLOSE` queued before the descriptor is free, and `accept` waits
until no `CLOSE` is queued, so that whoever writes to an open descriptor means the connection that
has it. -/

namespace Starnet

namespace Descriptor

variable {S : Type}

/-! ### What a service knows -/

namespace Service

variable {svc svc' : Service S} {fd : Int32} {c : Nat} {note : Note}

/-- The service takes `fd` for connection `c`, or an `ACCEPT` in its queue says so. -/
def Knows (svc : Service S) (fd : Int32) (c : Nat) : Prop :=
  svc.view fd = some c ∨ .accept fd c ∈ svc.inbox

/-- A `CLOSE` of `fd` is in the queue. -/
def Hears (svc : Service S) (fd : Int32) : Prop := ∃ c, .close fd c ∈ svc.inbox

/-- No `ACCEPT` of a descriptor is behind a `CLOSE` of it. -/
def Settled (svc : Service S) : Prop :=
  svc.inbox.Pairwise fun before after => ∀ fd c c', before = .close fd c → after ≠ .accept fd c'

/-- `svc'` is `svc` with messages behind its queue that are neither `ACCEPT` nor `CLOSE`. -/
def Quieter (svc svc' : Service S) : Prop :=
  svc'.view = svc.view ∧ ∃ quiet, svc'.inbox = svc.inbox ++ quiet ∧
    ∀ note ∈ quiet, ∀ fd c, note ≠ .accept fd c ∧ note ≠ .close fd c

theorem Quieter.refl (svc : Service S) : svc.Quieter svc := ⟨rfl, [], (List.append_nil _).symm, nofun⟩

theorem Quieter.knows (q : svc.Quieter svc') : svc'.Knows fd c ↔ svc.Knows fd c := by
  obtain ⟨view, quiet, inbox, other⟩ := q
  rw [Knows, Knows, view, inbox, List.mem_append]
  have absent : .accept fd c ∉ quiet := fun mem => (other _ mem fd c).1 rfl
  tauto

theorem Quieter.hears (q : svc.Quieter svc') : svc'.Hears fd ↔ svc.Hears fd := by
  obtain ⟨-, quiet, inbox, other⟩ := q
  have absent : ∀ c, .close fd c ∉ quiet := fun c mem => (other _ mem fd c).2 rfl
  simp only [Hears, inbox, List.mem_append, absent, or_false]

theorem Quieter.settled (q : svc.Quieter svc') (h : svc.Settled) : svc'.Settled := by
  obtain ⟨-, quiet, inbox, other⟩ := q
  rw [Settled, inbox]
  refine List.pairwise_append.mpr ⟨h, ?_, ?_⟩
  · exact List.pairwise_iff_forall_sublist.mpr fun sub fd c _ eq =>
      absurd eq (other _ (sub.subset (List.mem_cons_self ..)) fd c).2
  · exact fun before _ after mem fd _ c' _ => (other after mem fd c').1

variable {rest : List Note}

/-- What is known after a message was known before. -/
theorem knows_of_receive (queued : svc.inbox = note :: rest)
    (h : Knows { svc with inbox := rest, view := svc.receive note } fd c) : svc.Knows fd c := by
  rcases h with seen | told
  · cases note with
    | accept fd' c' =>
      simp only [receive] at seen
      by_cases same : fd = fd'
      · subst same
        rw [Function.update_self] at seen
        cases seen
        exact Or.inr (queued ▸ List.mem_cons_self ..)
      · rw [Function.update_of_ne same] at seen
        exact Or.inl seen
    | close fd' c' =>
      simp only [receive] at seen
      by_cases same : fd = fd'
      · subst same
        rw [Function.update_self] at seen
        cases seen
      · rw [Function.update_of_ne same] at seen
        exact Or.inl seen
    | data | warning => exact Or.inl seen
  · exact Or.inr (queued ▸ List.mem_cons_of_mem _ told)

/-- A `CLOSE` that is queued stays queued until it is handled, and then `fd` is not known. -/
theorem hears_of_receive (queued : svc.inbox = note :: rest) (settled : svc.Settled)
    (h : Knows { svc with inbox := rest, view := svc.receive note } fd c) (hears : svc.Hears fd) :
    Hears { svc with inbox := rest, view := svc.receive note } fd := by
  obtain ⟨c', mem⟩ := hears
  rw [queued, List.mem_cons] at mem
  rcases mem with rfl | mem
  · exfalso
    rcases h with seen | told
    · simp only [receive, Function.update_self] at seen
      cases seen
    · rw [Settled, queued, List.pairwise_cons] at settled
      exact settled.1 _ told fd c' c rfl rfl
  · exact ⟨c', mem⟩

end Service

/-- The `CLOSE` of a connection that the socket thread is closing is queued wherever it is known. -/
def Heard (s : State S) (fd : Int32) : Prop :=
  ∀ k c, (s.services k).Knows fd c → (s.services k).Hears fd

/-- The descriptor that the socket thread is working on. -/
def Busy (s : State S) : Thread S → Prop
  | .idle => True
  | .accepted fd c _ => s.sockets fd = some c ∧ s.conns fd = none ∧
      ∀ k, ¬(s.services k).Hears fd ∧ ∀ c', ¬(s.services k).Knows fd c'
  | .added fd c k => s.sockets fd = some c ∧ (∃ c', s.conns fd = some (c', k)) ∧
      ∀ k', ¬(s.services k').Hears fd
  | .posted fd _ => Heard s fd
  | .connErased fd _ | .bufferErased fd _ => s.conns fd = none ∧ Heard s fd

/-- What is known agrees with the open descriptors. -/
structure Told (s : State S) : Prop where
  known : ∀ k fd c c', (s.services k).Knows fd c → s.sockets fd = some c' → c = c'
  reachable : ∀ k fd c, (s.services k).Knows fd c →
    (s.sockets fd).isSome ∨ (s.services k).Hears fd
  settled : ∀ k, (s.services k).Settled
  owner : ∀ fd c k, s.conns fd = some (c, k) → ∀ k' c', (s.services k').Knows fd c' → k' = k
  managed : ∀ fd, (s.conns fd).isSome → (s.sockets fd).isSome
  busy : Busy s s.thread

namespace Told

variable {s s' : State S}

theorem initial : Told (State.initial : State S) := by
  have unknown : ∀ k fd c, ¬((State.initial : State S).services k).Knows fd c := by
    rintro k fd c (seen | told)
    · cases seen
    · cases told
  constructor
  · exact fun k fd c c' knows => absurd knows (unknown k fd c)
  · exact fun k fd c knows => absurd knows (unknown k fd c)
  · exact fun k => .nil
  · intro fd c k managed
    cases managed
  · intro fd managed
    cases managed
  · trivial

/-- A step of services that learn of no connection, and drop no `CLOSE` of one that they know. -/
theorem forget (h : Told s) (sockets : s'.sockets = s.sockets) (conns : s'.conns = s.conns)
    (thread : s'.thread = s.thread)
    (knows : ∀ k fd c, (s'.services k).Knows fd c →
      (s.services k).Knows fd c ∧ ((s.services k).Hears fd → (s'.services k).Hears fd))
    (hears : ∀ k fd, (s'.services k).Hears fd → (s.services k).Hears fd)
    (settled : ∀ k, (s'.services k).Settled) : Told s' := by
  constructor
  · intro k fd c c' known
    rw [sockets]
    exact h.known k fd c c' (knows k fd c known).1
  · intro k fd c known
    obtain ⟨before, stays⟩ := knows k fd c known
    rw [sockets]
    exact (h.reachable k fd c before).imp_right stays
  · exact settled
  · intro fd c k managed k' c' known
    rw [conns] at managed
    exact h.owner fd c k managed k' c' (knows k' fd c' known).1
  · rw [sockets, conns]
    exact h.managed
  · have heard : ∀ fd, Heard s fd → Heard s' fd := fun fd before k c known =>
      (knows k fd c known).2 (before k c (knows k fd c known).1)
    have busy := h.busy
    rw [thread]
    cases stage : s.thread with
    | idle => trivial
    | accepted fd c k =>
      rw [stage] at busy
      obtain ⟨socket, conn, untold⟩ := busy
      exact ⟨sockets ▸ socket, conns ▸ conn, fun k => ⟨fun hear => (untold k).1 (hears k fd hear),
        fun c' known => (untold k).2 c' (knows k fd c' known).1⟩⟩
    | added fd c k =>
      rw [stage] at busy
      obtain ⟨socket, conn, untold⟩ := busy
      exact ⟨sockets ▸ socket, conns ▸ conn, fun k hear => untold k (hears k fd hear)⟩
    | posted fd c =>
      rw [stage] at busy
      exact heard fd busy
    | connErased fd c | bufferErased fd c =>
      rw [stage] at busy
      exact ⟨conns ▸ busy.1, heard fd busy.2⟩

theorem quiet (h : Told s) (sockets : s'.sockets = s.sockets) (conns : s'.conns = s.conns)
    (thread : s'.thread = s.thread) (q : ∀ k, (s.services k).Quieter (s'.services k)) : Told s' :=
  h.forget sockets conns thread (fun k _ _ known => ⟨(q k).knows.mp known, (q k).hears.mpr⟩)
    (fun k _ => (q k).hears.mp) fun k => (q k).settled (h.settled k)

end Told

/-! ### Posts -/

section Posts

variable [DecidableEq S] {s : State S} {k j : S} {note : Note} {fd : Int32} {c : Nat}

theorem post_self : (s.post k note).services k =
    { s.services k with inbox := (s.services k).inbox ++ [note] } :=
  Function.update_self ..

theorem post_other (other : j ≠ k) : (s.post k note).services j = s.services j :=
  Function.update_of_ne other ..

theorem post_knows : ((s.post k note).services j).Knows fd c ↔
    (s.services j).Knows fd c ∨ j = k ∧ note = .accept fd c := by
  by_cases same : j = k
  · subst same
    simp only [Service.Knows, post_self, List.mem_append, List.mem_singleton, true_and, or_assoc,
      eq_comm]
  · simp only [post_other same, same, false_and, or_false]

theorem post_hears : ((s.post k note).services j).Hears fd ↔
    (s.services j).Hears fd ∨ j = k ∧ ∃ c, note = .close fd c := by
  by_cases same : j = k
  · subst same
    simp only [Service.Hears, post_self, List.mem_append, List.mem_singleton, true_and, exists_or,
      eq_comm]
  · simp only [post_other same, same, false_and, or_false]

theorem post_settled (settled : (s.services j).Settled)
    (fresh : ∀ fd c, note = .accept fd c → ¬(s.services k).Hears fd) :
    ((s.post k note).services j).Settled := by
  by_cases same : j = k
  · subst same
    rw [Service.Settled, post_self]
    refine List.pairwise_append.mpr ⟨settled, List.pairwise_singleton .., ?_⟩
    rintro before mem after last fd c c' rfl eq
    rw [List.mem_singleton.mp last] at eq
    exact fresh fd c' eq ⟨c, mem⟩
  · rw [post_other same]
    exact settled

theorem post_quieter (quiet : ∀ fd c, note ≠ .accept fd c ∧ note ≠ .close fd c) (j : S) :
    (s.services j).Quieter ((s.post k note).services j) := by
  by_cases same : j = k
  · subst same
    rw [post_self]
    refine ⟨rfl, [note], rfl, fun note' mem => ?_⟩
    rw [List.mem_singleton.mp mem]
    exact quiet
  · rw [post_other same]
    exact .refl _

end Posts

/-! ### The steps of the socket thread -/

namespace Told

variable {s : State S} {k : S} {fd : Int32} {c : Nat}

theorem accept (h : Told s) (free : s.sockets fd = none)
    (fresh : ∀ k c, .close fd c ∉ (s.services k).inbox) :
    Told { s with
      sockets := Function.update s.sockets fd (some s.next)
      thread := .accepted fd s.next k
      next := s.next + 1 } := by
  have unheard : ∀ k, ¬(s.services k).Hears fd := fun k ⟨c, mem⟩ => fresh k c mem
  have unknown : ∀ k c, ¬(s.services k).Knows fd c := by
    intro k c knows
    rcases h.reachable k fd c knows with isOpen | hears
    · rw [free] at isOpen
      cases isOpen
    · exact unheard k hears
  have conn : s.conns fd = none := by
    rcases managed : s.conns fd with _ | conn
    · rfl
    · have isOpen := h.managed fd (by rw [managed]; rfl)
      rw [free] at isOpen
      cases isOpen
  constructor
  · intro k fd' c c' knows socket
    by_cases same : fd' = fd
    · exact absurd (same ▸ knows) (unknown k c)
    · simp only [Function.update_of_ne same] at socket
      exact h.known k fd' c c' knows socket
  · intro k fd' c knows
    by_cases same : fd' = fd
    · exact absurd (same ▸ knows) (unknown k c)
    · simp only [Function.update_of_ne same]
      exact h.reachable k fd' c knows
  · exact h.settled
  · exact h.owner
  · intro fd' managed
    by_cases same : fd' = fd
    · simp only [same, Function.update_self, Option.isSome_some]
    · simp only [Function.update_of_ne same]
      exact h.managed fd' managed
  · exact ⟨Function.update_self .., conn, fun k => ⟨unheard k, unknown k⟩⟩

theorem addConn (h : Told s) (here : s.thread = .accepted fd c k) :
    Told { s with
      conns := if (s.conns fd).isSome then s.conns else Function.update s.conns fd (some (c, k))
      thread := .added fd c k } := by
  have busy := h.busy
  rw [here] at busy
  obtain ⟨socket, conn, untold⟩ := busy
  rw [conn, if_neg Bool.noConfusion]
  refine ⟨h.known, h.reachable, h.settled, ?_, ?_, ?_⟩
  · intro fd' c₁ k₁ managed k' c' knows
    by_cases same : fd' = fd
    · exact absurd (same ▸ knows) ((untold k').2 c')
    · simp only [Function.update_of_ne same] at managed
      exact h.owner fd' c₁ k₁ managed k' c' knows
  · intro fd' managed
    by_cases same : fd' = fd
    · rw [same, socket]
      rfl
    · simp only [Function.update_of_ne same] at managed
      exact h.managed fd' managed
  · exact ⟨socket, ⟨c, Function.update_self ..⟩, fun k' => (untold k').1⟩

theorem postAccept [DecidableEq S] (h : Told s) (here : s.thread = .added fd c k) :
    Told { s.post k (.accept fd c) with thread := .idle } := by
  have busy := h.busy
  rw [here] at busy
  obtain ⟨socket, ⟨c₀, conn⟩, unheard⟩ := busy
  constructor
  · intro j fd' c₁ c' knows open_
    rcases post_knows.mp knows with knows | ⟨-, note⟩
    · exact h.known j fd' c₁ c' knows open_
    · cases note
      exact Option.some.inj (socket.symm.trans open_)
  · intro j fd' c₁ knows
    rcases post_knows.mp knows with knows | ⟨-, note⟩
    · exact (h.reachable j fd' c₁ knows).imp_right fun hears => post_hears.mpr (Or.inl hears)
    · cases note
      exact Or.inl (Option.isSome_of_mem socket)
  · refine fun j => post_settled (h.settled j) fun fd' c₁ note => ?_
    cases note
    exact unheard k
  · intro fd' c₁ k₁ managed j c' knows
    rcases post_knows.mp knows with knows | ⟨rfl, note⟩
    · exact h.owner fd' c₁ k₁ managed j c' knows
    · cases note
      have same := Option.some.inj (conn.symm.trans managed)
      exact congrArg Prod.snd same
  · exact h.managed
  · trivial

theorem notifyClose [DecidableEq S] (h : Told s) (managed : s.conns fd = some (c, k)) :
    Told { s.post k (.close fd c) with thread := .posted fd c } := by
  have knows_iff : ∀ {j fd' c'}, ((s.post k (.close fd c)).services j).Knows fd' c' →
      (s.services j).Knows fd' c' := fun knows =>
    (post_knows.mp knows).resolve_right fun both => nomatch both.2
  constructor
  · exact fun j fd' c₁ c' knows => h.known j fd' c₁ c' (knows_iff knows)
  · exact fun j fd' c₁ knows => (h.reachable j fd' c₁ (knows_iff knows)).imp_right fun hears =>
      post_hears.mpr (Or.inl hears)
  · exact fun j => post_settled (h.settled j) nofun
  · exact fun fd' c₁ k₁ managed j c' knows => h.owner fd' c₁ k₁ managed j c' (knows_iff knows)
  · exact h.managed
  · intro j c' knows
    have owner := h.owner fd c k managed j c' (knows_iff knows)
    exact post_hears.mpr (Or.inr ⟨owner, c, rfl⟩)

theorem eraseConn (h : Told s) (here : s.thread = .posted fd c) :
    Told { s with conns := Function.update s.conns fd none, thread := .connErased fd c } := by
  have busy := h.busy
  rw [here] at busy
  refine ⟨h.known, h.reachable, h.settled, ?_, ?_, ⟨Function.update_self .., busy⟩⟩
  · intro fd' c₁ k₁ managed
    by_cases same : fd' = fd
    · subst same
      simp only [Function.update_self] at managed
      cases managed
    · simp only [Function.update_of_ne same] at managed
      exact h.owner fd' c₁ k₁ managed
  · intro fd' managed
    by_cases same : fd' = fd
    · subst same
      simp only [Function.update_self] at managed
      cases managed
    · simp only [Function.update_of_ne same] at managed
      exact h.managed fd' managed

theorem eraseBuffer (h : Told s) (here : s.thread = .connErased fd c) :
    Told { s.setBuffer fd none with thread := .bufferErased fd c } := by
  have busy := h.busy
  rw [here] at busy
  exact ⟨h.known, h.reachable, h.settled, h.owner, h.managed, busy⟩

theorem closeFd (h : Told s) (here : s.thread = .bufferErased fd c) :
    Told { s with sockets := Function.update s.sockets fd none, thread := .idle } := by
  have busy := h.busy
  rw [here] at busy
  obtain ⟨conn, heard⟩ := busy
  constructor
  · intro k fd' c₁ c' knows open_
    by_cases same : fd' = fd
    · subst same
      simp only [Function.update_self] at open_
      cases open_
    · simp only [Function.update_of_ne same] at open_
      exact h.known k fd' c₁ c' knows open_
  · intro k fd' c₁ knows
    by_cases same : fd' = fd
    · subst same
      exact Or.inr (heard k c₁ knows)
    · simp only [Function.update_of_ne same]
      exact h.reachable k fd' c₁ knows
  · exact h.settled
  · exact h.owner
  · intro fd' managed
    by_cases same : fd' = fd
    · subst same
      rw [conn] at managed
      cases managed
    · simp only [Function.update_of_ne same]
      exact h.managed fd' managed
  · trivial

theorem receive [DecidableEq S] (h : Told s) {note : Note} {rest : List Note}
    (queued : (s.services k).inbox = note :: rest) :
    Told (s.setService k
      { s.services k with inbox := rest, view := (s.services k).receive note }) := by
  have step : ∀ j, (s.setService k { s.services k with
      inbox := rest, view := (s.services k).receive note }).services j =
      if j = k then { s.services k with inbox := rest, view := (s.services k).receive note }
      else s.services j := by
    intro j
    by_cases same : j = k
    · subst same
      rw [if_pos rfl]
      exact Function.update_self ..
    · rw [if_neg same]
      exact Function.update_of_ne same ..
  refine h.forget rfl rfl rfl ?_ ?_ ?_
  · intro j fd' c' knows
    rw [step] at knows ⊢
    split at knows
    · rename_i same
      rw [if_pos same, same]
      exact ⟨Service.knows_of_receive queued knows,
        Service.hears_of_receive queued (h.settled k) knows⟩
    · rename_i other
      rw [if_neg other]
      exact ⟨knows, id⟩
  · intro j fd' hears
    rw [step] at hears
    split at hears
    · rename_i same
      obtain ⟨c', mem⟩ := hears
      rw [same]
      exact ⟨c', queued ▸ List.mem_cons_of_mem _ mem⟩
    · exact hears
  · intro j
    have settled := h.settled j
    rw [step]
    split
    · rename_i same
      subst same
      rw [Service.Settled, queued] at settled
      exact (List.pairwise_cons.mp settled).2
    · exact settled

end Told

/-! ### What is sent -/

/-- The messages that are queued or being sent on an open descriptor are for its connection, and
every byte went to the connection that it is meant for. -/
structure Clean (s : State S) : Prop where
  queued : ∀ fd c wb, s.sockets fd = some c → s.writeBuffers fd = some wb →
    wb.Holds fun msg => msg.seq = c
  called : ∀ k call c, (s.services k).call = some call → s.sockets call.fd = some c →
    call.msg.seq = c
  delivered : ∀ d ∈ s.delivered, d.meant = d.got

namespace Clean

variable {s s' : State S} {fd : Int32} {calls : List WriteCall}

/-- A step of the thread or of a queue. -/
theorem congr (h : Clean s) (sockets : s'.sockets = s.sockets)
    (writeBuffers : s'.writeBuffers = s.writeBuffers)
    (called : ∀ k, (s'.services k).call = (s.services k).call)
    (delivered : s'.delivered = s.delivered) : Clean s' := by
  constructor
  · rw [sockets, writeBuffers]
    exact h.queued
  · intro k call c
    rw [sockets, called]
    exact h.called k call c
  · rw [delivered]
    exact h.delivered

theorem post [DecidableEq S] (h : Clean s) (k : S) (note : Note) : Clean (s.post k note) := by
  refine h.congr rfl rfl (fun j => ?_) rfl
  by_cases same : j = k
  · rw [same, post_self]
  · rw [post_other same]

theorem setBuffer (h : Clean s) (fd : Int32) {wb : Option ConnWriteBuffer}
    (clean : ∀ c wb', s.sockets fd = some c → wb = some wb' → wb'.Holds fun msg => msg.seq = c) :
    Clean (s.setBuffer fd wb) := by
  refine ⟨fun fd' c wb' socket buffer => ?_, h.called, h.delivered⟩
  simp only [State.setBuffer] at socket buffer
  by_cases same : fd' = fd
  · subst same
    rw [Function.update_self] at buffer
    exact clean c wb' socket buffer
  · rw [Function.update_of_ne same] at buffer
    exact h.queued fd' c wb' socket buffer

/-- The bytes that calls of `write` hand over are for the connection that gets them. -/
theorem deliver (h : Clean s)
    (clean : ∀ c, s.sockets fd = some c → ∀ call ∈ calls, call.msg.seq = c) :
    Clean (s.deliver fd calls) := by
  unfold State.deliver
  rcases socket : s.sockets fd with _ | c
  · exact h
  · refine ⟨h.queued, h.called, fun d mem => ?_⟩
    rcases List.mem_append.mp mem with mem | mem
    · exact h.delivered d mem
    · obtain ⟨b, written, rfl⟩ := List.mem_map.mp mem
      obtain ⟨msg, same, seq⟩ :=
        mem_wire (P := fun msg => msg.seq = c) (clean c socket) b written
      rw [← seq, same]

theorem setCall [DecidableEq S] (h : Clean s) (k : S) {call : Option (SendCall S)}
    (clean : ∀ call' c, call = some call' → s.sockets call'.fd = some c → call'.msg.seq = c) :
    Clean (s.setCall k call) := by
  refine ⟨h.queued, fun j call' c called socket => ?_, h.delivered⟩
  simp only [State.setCall, State.setService] at called socket
  by_cases same : j = k
  · subst same
    rw [Function.update_self] at called
    exact clean call' c called socket
  · rw [Function.update_of_ne same] at called
    exact h.called j call' c called socket

end Clean

/-! ### Whole runs -/

section Runs

variable {s s' : State S} {op : Op S}

/-- A service with another call, and the same queue. -/
theorem setCall_quieter [DecidableEq S] (s : State S) (k : S) (call : Option (SendCall S)) (j : S) :
    (s.services j).Quieter ((s.setCall k call).services j) := by
  by_cases same : j = k
  · subst same
    simp only [State.setCall, State.setService, Function.update_self]
    exact ⟨rfl, [], (List.append_nil _).symm, nofun⟩
  · simp only [State.setCall, State.setService, Function.update_of_ne same]
    exact .refl _

theorem deliver_services (fd : Int32) (calls : List WriteCall) :
    (s.deliver fd calls).services = s.services := by
  unfold State.deliver
  split <;> rfl

theorem deliver_sockets (fd : Int32) (calls : List WriteCall) :
    (s.deliver fd calls).sockets = s.sockets := by
  unfold State.deliver
  split <;> rfl

theorem deliver_conns (fd : Int32) (calls : List WriteCall) :
    (s.deliver fd calls).conns = s.conns := by
  unfold State.deliver
  split <;> rfl

theorem deliver_thread (fd : Int32) (calls : List WriteCall) :
    (s.deliver fd calls).thread = s.thread := by
  unfold State.deliver
  split <;> rfl

/-- The state in which `SendBuffer` has written to `wb` and unlocked it. -/
def sentState [DecidableEq S] (s : State S) (k : S) (call : SendCall S) (wb : ConnWriteBuffer)
    (writes : List WriteOutcome) : State S :=
  let sent := wb.send call.msg ⟨s.answers call.fd writes, []⟩
  { ((s.setBuffer call.fd (some sent.1.warn.1)).deliver call.fd sent.2.2.calls).setCall k none with
    lock := none }

theorem sendBuffer_cases [DecidableEq S] (s : State S) (k : S) (call : SendCall S)
    (wb : ConnWriteBuffer) (writes : List WriteOutcome) :
    s.sendBuffer k call wb writes = sentState s k call wb writes ∨
      s.sendBuffer k call wb writes =
        (sentState s k call wb writes).post call.serviceId (.warning call.fd) := by
  rcases warned : (wb.send call.msg ⟨s.answers call.fd writes, []⟩).1.warn.2 with _ | kb
  · left
    simp only [State.sendBuffer, warned, sentState]
    rfl
  · right
    simp only [State.sendBuffer, warned, sentState]
    rfl

/-- The control part of one step. -/
theorem Told.step [DecidableEq S] (h : Told s) (step : Step s op s') (fresh : FreshDescriptor s op) : Told s' := by
  cases step with
  | accept idle free => exact h.accept free fresh.1
  | addConn here => exact h.addConn here
  | postAccept here => exact h.postAccept here
  | data idle managed => exact h.quiet rfl rfl rfl (post_quieter fun _ _ => ⟨nofun, nofun⟩)
  | notifyClose idle managed => exact h.notifyClose managed
  | eraseConn here => exact h.eraseConn here
  | eraseBuffer here unlocked => exact h.eraseBuffer here
  | closeFd here => exact h.closeFd here
  | writable idle unlocked managed buffer =>
    refine h.quiet (deliver_sockets ..) (deliver_conns ..) (deliver_thread ..) fun k => ?_
    rw [deliver_services]
    exact .refl _
  | receive free queued => exact h.receive queued
  | write free known managed => exact h.quiet rfl rfl rfl (setCall_quieter s _ _)
  | fetch called stage unlocked => exact h.quiet rfl rfl rfl (setCall_quieter (s.setBuffer _ _) _ _)
  | @send k call wb writes called stage buffer open_ =>
    have sent : Told (sentState s k call wb writes) := by
      have kept : ∀ s' : State S, s'.services = s.services →
          ∀ j, (s.services j).Quieter ((s'.setCall k none).services j) := by
        intro s' same j
        rw [← same]
        exact setCall_quieter s' k none j
      exact h.quiet (deliver_sockets ..) (deliver_conns ..) (deliver_thread ..)
        (kept _ (deliver_services ..))
    rcases sendBuffer_cases s k call wb writes with eq | eq
    · rw [eq]
      exact sent
    · rw [eq]
      exact sent.quiet rfl rfl rfl (post_quieter fun _ _ => ⟨nofun, nofun⟩)

/-- The data part of one step. -/
theorem Clean.step [DecidableEq S] (h : Clean s) (told : Told s) (step : Step s op s')
    (fresh : FreshDescriptor s op) : Clean s' := by
  cases step with
  | @accept k fd idle free =>
    obtain ⟨-, unused, emptied⟩ := fresh
    refine ⟨fun fd' c wb socket buffer => ?_, fun k call c called socket => ?_, h.delivered⟩
    · by_cases same : fd' = fd
      · subst same
        exact ConnWriteBuffer.holds_of_hasData (emptied wb buffer)
      · simp only [Function.update_of_ne same] at socket
        exact h.queued fd' c wb socket buffer
    · simp only [Function.update_of_ne (unused k call called)] at socket
      exact h.called k call c called socket
  | addConn here => exact h.congr rfl rfl (fun _ => rfl) rfl
  | postAccept here => exact (h.post _ _).congr rfl rfl (fun _ => rfl) rfl
  | data idle managed => exact h.post _ _
  | notifyClose idle managed => exact (h.post _ _).congr rfl rfl (fun _ => rfl) rfl
  | eraseConn here => exact h.congr rfl rfl (fun _ => rfl) rfl
  | eraseBuffer here unlocked =>
    refine Clean.congr (h.setBuffer _ ?_) rfl rfl (fun _ => rfl) rfl
    rintro _ _ _ ⟨⟩
  | @closeFd fd c here =>
    refine ⟨fun fd' c wb socket buffer => ?_, fun k call c called socket => ?_, h.delivered⟩
    · by_cases same : fd' = fd
      · subst same
        simp only [Function.update_self] at socket
        cases socket
      · simp only [Function.update_of_ne same] at socket
        exact h.queued fd' c wb socket buffer
    · by_cases same : call.fd = fd
      · simp only [same, Function.update_self] at socket
        cases socket
      · simp only [Function.update_of_ne same] at socket
        exact h.called k call c called socket
  | @writable fd c k wb writes idle unlocked managed buffer =>
    have flushed : ∀ c, s.sockets fd = some c →
        (wb.flush ⟨s.answers fd writes, []⟩).1.Holds (fun msg => msg.seq = c) ∧
          ∀ call ∈ (wb.flush ⟨s.answers fd writes, []⟩).2.calls, call.msg.seq = c := by
      intro c socket
      exact (h.queued fd c wb socket buffer).flush (List.forall_mem_nil _)
    refine (h.setBuffer fd ?_).deliver fun c socket => (flushed c socket).2
    rintro c _ socket ⟨⟩
    exact (flushed c socket).1
  | @receive k note rest free queued =>
    refine h.congr rfl rfl (fun j => ?_) rfl
    by_cases same : j = k
    · subst same
      simp only [State.setService, Function.update_self]
    · simp only [State.setService, Function.update_of_ne same]
  | @write k fd low buff c conn free known managed =>
    refine h.setCall k ?_
    rintro _ c' ⟨⟩ socket
    exact told.known k fd c c' (Or.inl known) socket
  | @fetch k call called stage unlocked =>
    have fetched : Clean (s.setBuffer call.fd (some ((s.writeBuffers call.fd).getD {}))) := by
      refine h.setBuffer call.fd ?_
      rintro c _ socket ⟨⟩
      rcases buffer : s.writeBuffers call.fd with _ | wb
      · exact ConnWriteBuffer.holds_of_hasData rfl
      · exact h.queued call.fd c wb socket buffer
    refine (fetched.setCall k ?_).congr rfl rfl (fun _ => rfl) rfl
    rintro _ c ⟨⟩ socket
    exact h.called k call c called socket
  | @send k call wb writes called stage buffer open_ =>
    have sent : ∀ c, s.sockets call.fd = some c →
        (wb.send call.msg ⟨s.answers call.fd writes, []⟩).1.Holds (fun msg => msg.seq = c) ∧
          ∀ w ∈ (wb.send call.msg ⟨s.answers call.fd writes, []⟩).2.2.calls, w.msg.seq = c := by
      intro c socket
      have held := h.queued call.fd c wb socket buffer
      exact held.send (h.called k call c called socket) (List.forall_mem_nil _)
    have delivered : Clean ((s.setBuffer call.fd
        (some (wb.send call.msg ⟨s.answers call.fd writes, []⟩).1.warn.1)).deliver call.fd
        (wb.send call.msg ⟨s.answers call.fd writes, []⟩).2.2.calls) := by
      refine (h.setBuffer call.fd ?_).deliver fun c socket => (sent c socket).2
      rintro c _ socket ⟨⟩
      exact (sent c socket).1.warn
    have returned : Clean (sentState s k call wb writes) := by
      refine Clean.congr (delivered.setCall k ?_) rfl rfl (fun _ => rfl) rfl
      rintro _ _ ⟨⟩
    rcases sendBuffer_cases s k call wb writes with eq | eq
    · rw [eq]
      exact returned
    · rw [eq]
      exact returned.post _ _

/-- In a run in which `accept` gives no descriptor that is still in use, every byte goes to the
connection that it is meant for. -/
theorem delivered_of_freshDescriptor [DecidableEq S] {tr : List (Op S)}
    (run : ((engine (S := S)).restrict FreshDescriptor).Run s tr) :
    ∀ d ∈ s.delivered, d.meant = d.got := by
  have inv : Told s ∧ Clean s := by
    refine run.stateInvariant (P := fun s => Told s ∧ Clean s) ?_ ?_
    · rintro _ rfl
      exact ⟨.initial, fun _ _ _ => nofun, fun _ _ _ => nofun, nofun⟩
    · rintro s op s' ⟨told, clean⟩ ⟨step, fresh⟩
      exact ⟨told.step step fresh, clean.step told step fresh⟩
  exact inv.2.delivered

end Runs

/-- Service 0 answers on descriptor 5, and the connection has a successor that it answers too. -/
theorem delivered_successor : ∃ s : State Unit, (∀ d ∈ s.delivered, d.meant = d.got) ∧
    s.delivered = [⟨0, 65, 0⟩, ⟨1, 66, 1⟩] := by
  have fresh : ∀ s : State Unit, (s.services ()).inbox = [] → (s.services ()).call = none →
      s.writeBuffers 5 = none → FreshDescriptor s (.accept () 5) := by
    intro s inbox call buffer
    refine ⟨fun _ _ mem => ?_, fun _ _ called => ?_, fun wb found => ?_⟩
    · rw [inbox] at mem
      cases mem
    · rw [call] at called
      cases called
    · rw [buffer] at found
      cases found
  have h0 : (engine.restrict FreshDescriptor).Run (State.initial : State Unit) [] := .init rfl
  have h1 := h0.step (a := Op.accept () 5) ⟨.accept rfl rfl, fresh _ rfl rfl rfl⟩
  have h2 := h1.step ⟨.addConn rfl, trivial⟩
  have h3 := h2.step ⟨.postAccept rfl, trivial⟩
  have h4 := h3.step (a := Op.receive ()) ⟨.receive rfl rfl, trivial⟩
  have h5 := h4.step (a := Op.write () 5 false [65]) ⟨.write rfl rfl rfl, trivial⟩
  have h6 := h5.step (a := Op.fetch ()) ⟨.fetch rfl rfl rfl, trivial⟩
  have h7 := h6.step (a := Op.send () [.wrote 1]) ⟨.send rfl rfl rfl rfl, trivial⟩
  have h8 := h7.step (a := Op.notifyClose 5) ⟨.notifyClose rfl rfl, trivial⟩
  have h9 := h8.step ⟨.eraseConn rfl, trivial⟩
  have h10 := h9.step ⟨.eraseBuffer rfl rfl, trivial⟩
  have h11 := h10.step ⟨.closeFd rfl, trivial⟩
  have h12 := h11.step (a := Op.receive ()) ⟨.receive rfl rfl, trivial⟩
  have h13 := h12.step (a := Op.accept () 5) ⟨.accept rfl rfl, fresh _ rfl rfl rfl⟩
  have h14 := h13.step ⟨.addConn rfl, trivial⟩
  have h15 := h14.step ⟨.postAccept rfl, trivial⟩
  have h16 := h15.step (a := Op.receive ()) ⟨.receive rfl rfl, trivial⟩
  have h17 := h16.step (a := Op.write () 5 false [66]) ⟨.write rfl rfl rfl, trivial⟩
  have h18 := h17.step (a := Op.fetch ()) ⟨.fetch rfl rfl rfl, trivial⟩
  have h19 := h18.step (a := Op.send () [.wrote 1]) ⟨.send rfl rfl rfl rfl, trivial⟩
  exact ⟨_, delivered_of_freshDescriptor h19, rfl⟩

/-- Descriptor 5 has a new connection while the service, which has not handled the `CLOSE`, answers
the old one. -/
theorem not_delivered_reused : ¬∀ (s : State Unit) (tr : List (Op Unit)), engine.Run s tr →
    ∀ d ∈ s.delivered, d.meant = d.got := by
  intro claim
  have h0 : engine.Run (State.initial : State Unit) [] := .init rfl
  have h1 := h0.step (a := Op.accept () 5) (.accept rfl rfl)
  have h2 := h1.step (.addConn rfl)
  have h3 := h2.step (.postAccept rfl)
  have h4 := h3.step (a := Op.receive ()) (.receive rfl rfl)
  have h5 := h4.step (a := Op.notifyClose 5) (.notifyClose rfl rfl)
  have h6 := h5.step (.eraseConn rfl)
  have h7 := h6.step (.eraseBuffer rfl rfl)
  have h8 := h7.step (.closeFd rfl)
  have h9 := h8.step (a := Op.accept () 5) (.accept rfl rfl)
  have h10 := h9.step (.addConn rfl)
  have h11 := h10.step (a := Op.write () 5 false [65]) (.write rfl rfl rfl)
  have h12 := h11.step (a := Op.fetch ()) (.fetch rfl rfl rfl)
  have h13 := h12.step (a := Op.send () [.wrote 1]) (.send rfl rfl rfl rfl)
  cases claim _ _ h13 ⟨0, 65, 1⟩ (List.mem_singleton_self _)

end Descriptor

end Starnet
