import Starnet.Clusterd.Results

/-! No call waits for ever. A request waits only while `node_fd` has a descriptor for its node, and
that descriptor is open or a message that it is not waits for `clusterd`, also when its number has
been given to other connections meanwhile. -/

namespace Starnet.Clusterd

open Transition

/-- The engine reports that the descriptor is closed. -/
def Mail.Ends (fd : Int32) (mail : Mail) : Prop :=
  mail.fd = fd ∧ (mail.subtype = .error ∨ mail.subtype = .close)

instance (fd : Int32) (mail : Mail) : Decidable (mail.Ends fd) :=
  inferInstanceAs (Decidable (_ ∧ (_ ∨ _)))

namespace Node

/-- The nodes whose requests go to descriptor `fd`. -/
def lines (s : Node) (fd : Int32) : Nat := s.nodeFd.entries.countP fun entry => entry.2 = fd

/-- The reports about descriptor `fd` that wait for `clusterd`. -/
def reports (s : Node) (fd : Int32) : Nat := s.inbox.countP fun mail => mail.Ends fd

/-- The tables of the requests, the descriptors and the inbox are the same. -/
structure SameTables (s s' : Node) : Prop where
  cb : s'.sessionCb = s.sessionCb
  names : s'.sessionNode = s.sessionNode
  out : s'.outSession = s.outSession
  fds : s'.nodeFd = s.nodeFd
  inbox : s'.inbox = s.inbox
  conns : s'.conns = s.conns

/-- A waiting request has a descriptor, and a descriptor that is not open has a report for each node
whose requests go to it. -/
structure Linked (s : Node) : Prop where
  named : ∀ session, s.sessionNode session = (s.sessionCb session).map Request.node
  line : ∀ session request, s.sessionCb session = some request →
    (s.nodeFd.lookup request.node).isSome
  reported : ∀ fd, s.lines fd ≤ s.reports fd + if (s.conns fd).isSome then 1 else 0

namespace Linked

variable {s s' : Node} {fd : Int32} {node : List UInt8}

theorem initial : Linked Node.initial := by
  constructor
  · exact fun _ => rfl
  · rintro session request ⟨⟩
  · exact fun _ => Nat.zero_le _

/-- Changes of the other fields. -/
theorem keep (linked : s.Linked) (same : SameTables s s') : s'.Linked := by
  constructor
  · rw [same.cb, same.names]
    exact linked.named
  · rw [same.cb, same.fds]
    exact linked.line
  · intro fd
    unfold lines reports
    rw [same.fds, same.inbox, same.conns]
    exact linked.reported fd

/-- The engine opens a descriptor. -/
theorem opens (linked : s.Linked) (e : End) (free : s.conns fd = none) :
    Linked { s with conns := Function.update s.conns fd (some e) } := by
  refine ⟨linked.named, linked.line, fun fd' => (linked.reported fd').trans ?_⟩
  by_cases same : fd' = fd
  · subst same
    simp only [free, Option.isSome_none, Bool.false_eq_true, if_false]
    exact Nat.le_add_right _ _
  · simp only [Function.update_of_ne same]
    exact Nat.le_refl _

/-- The engine posts a message. -/
theorem posts (linked : s.Linked) (mail : Mail) : Linked { s with inbox := s.inbox ++ [mail] } := by
  refine ⟨linked.named, linked.line, fun fd => (linked.reported fd).trans ?_⟩
  refine Nat.add_le_add_right ?_ _
  show s.inbox.countP _ ≤ (s.inbox ++ [mail]).countP _
  rw [List.countP_append]
  exact Nat.le_add_right _ _

/-- The engine closes a descriptor and reports it. -/
theorem loses (linked : s.Linked) {e : End} (mail : Mail) (isOpen : s.conns fd = some e)
    (ends : mail.Ends fd) :
    Linked { s with conns := Function.update s.conns fd none, inbox := s.inbox ++ [mail] } := by
  refine ⟨linked.named, linked.line, fun fd' => (linked.reported fd').trans ?_⟩
  show s.inbox.countP _ + _ ≤ (s.inbox ++ [mail]).countP _ + _
  rw [List.countP_append]
  by_cases same : fd' = fd
  · subst same
    simp [isOpen, ends]
  · simp only [Function.update_of_ne same]
    omega

/-- `get_fd` gives a descriptor that `node_fd` has afterwards; one from `socket.connect` is open and
was not before. -/
theorem getFd_some {connected : Int32} (got : s.getFd node connected = some (fd, s')) :
    s'.nodeFd.lookup node = some fd ∧ (s' = s ∨ s.nodeFd.lookup node = none ∧ fd = connected ∧
      0 ≤ connected ∧ s' = { s with nodeFd := s.nodeFd.insert node connected }) := by
  unfold getFd at got
  split at got
  · next found =>
    cases got
    exact ⟨found, .inl rfl⟩
  · next absent =>
    split at got
    · cases got
    · split at got
      · cases got
      · next valid =>
        cases got
        exact ⟨AList.lookup_insert _, .inr ⟨absent, rfl, Int32.not_lt.mp valid, rfl⟩⟩

/-- `node_fd` has one more entry for a descriptor that was just opened. -/
theorem inserts (linked : s.Linked) {conns : Int32 → Option End} {e : End}
    (absent : s.nodeFd.lookup node = none) (free : s.conns fd = none)
    (opened : conns = Function.update s.conns fd (some e)) :
    Linked { s with conns := conns, nodeFd := s.nodeFd.insert node fd } := by
  have entries := AList.entries_insert_of_notMem (b := fd) (AList.lookup_eq_none.mp absent)
  refine ⟨linked.named, fun session request waits => ?_, fun fd' => ?_⟩
  · by_cases same : request.node = node
    · rw [same, AList.lookup_insert]
      rfl
    · rw [AList.lookup_insert_ne same]
      exact linked.line session request waits
  · have old := linked.reported fd'
    show (s.nodeFd.insert node fd).entries.countP _ ≤ s.reports fd' + _
    unfold lines at old
    rw [entries, List.countP_cons, opened]
    by_cases same : fd' = fd
    · subst same
      simp only [free, Option.isSome_none, Bool.false_eq_true, if_false, Nat.add_zero] at old
      simpa using old
    · simp only [Function.update_of_ne same]
      simpa [Ne.symm same] using old

/-- A request starts to wait. -/
theorem waits (linked : s.Linked) (request : Request)
    (found : (s.nodeFd.lookup request.node).isSome) : (s.wait request).Linked := by
  refine ⟨fun session => ?_, fun session request' waits => ?_, linked.reported⟩
  · by_cases same : session = request.session
    · subst same
      simp [wait]
    · simp [wait, same, linked.named]
  · by_cases same : session = request.session
    · subst same
      simp only [wait, Function.update_self] at waits
      cases waits
      exact found
    · simp only [wait, Function.update_of_ne same] at waits
      exact linked.line session request' waits

/-- `request`, on a descriptor that `node_fd` has or that was just opened. -/
theorem request (linked : s.Linked) (addr payload : List UInt8) (needResponse : Bool)
    {connected : Int32}
    (got : ∀ fd s', s.getFd node connected = some (fd, s') → s'.Linked) :
    (s.request node addr payload needResponse connected).1.Linked := by
  unfold Node.request
  split
  · exact linked
  · next fd s' eq =>
    have linked' := got fd s' eq
    obtain ⟨found, -⟩ := getFd_some eq
    have counted : Linked { s' with outSession := s'.outSession + 1 } :=
      ⟨linked'.named, linked'.line, linked'.reported⟩
    dsimp only
    split
    · cases needResponse
      · exact linked'
      · exact counted
    · dsimp only
      cases needResponse with
      | false => exact linked'
      | true =>
        simp only [if_true]
        split
        · exact counted
        · exact counted.waits _ (by rw [found]; rfl)

theorem clear (linked : s.Linked) (session : Int64) : (s.clear session).Linked := by
  refine ⟨fun session' => ?_, fun session' request waits => ?_, linked.reported⟩
  · by_cases same : session' = session
    · subst same
      simp [Node.clear]
    · simp [Node.clear, same, linked.named]
  · by_cases same : session' = session
    · subst same
      simp [Node.clear] at waits
    · simp only [Node.clear, Function.update_of_ne same] at waits
      exact linked.line session' request waits

/-- The entry that `drop_node` takes out of `node_fd` is one for its descriptor. -/
theorem lines_erase (found : s.nodeFd.lookup node = some fd) (fd' : Int32) :
    (s.nodeFd.erase node).entries.countP (fun entry => entry.2 = fd') +
      (if fd' = fd then 1 else 0) = s.lines fd' := by
  have mem := AList.mem_lookup_iff.mp found
  obtain ⟨fd₁, before, after, absent, entries, erased⟩ :=
    List.exists_of_kerase (List.mem_keys_of_mem mem)
  have same : fd₁ = fd := by
    have mem₁ : (⟨node, fd₁⟩ : Sigma fun _ : List UInt8 => Int32) ∈ s.nodeFd.entries := by
      rw [entries]
      simp
    exact Option.some.inj ((AList.mem_lookup_iff.mpr mem₁).symm.trans found)
  subst same
  show (List.kerase node s.nodeFd.entries).countP _ + _ = s.nodeFd.entries.countP _
  rw [erased, entries, List.countP_append, List.countP_append, List.countP_cons]
  by_cases eq : fd₁ = fd'
  · simp only [eq, decide_true, if_true]
    omega
  · simp [eq, Ne.symm eq]

/-- `drop_node` on the first report in the inbox. -/
theorem drops {mail : Mail} {rest : List Mail} {found : Option (List UInt8)} (linked : s.Linked)
    (first : s.inbox = mail :: rest) (ends : mail.Ends fd) (finds : s.Finds fd found) :
    Linked (({ s with inbox := rest } : Node).dropNode fd found) := by
  have reports : ∀ fd', s.reports fd' =
      rest.countP (fun mail => mail.Ends fd') + if fd' = fd then 1 else 0 := by
    intro fd'
    unfold Node.reports
    rw [first, List.countP_cons]
    have about : mail.Ends fd' ↔ fd' = fd :=
      ⟨fun h => h.1.symm.trans ends.1, fun h => h ▸ ends⟩
    simp only [decide_eq_true_eq, about]
  cases found with
  | none =>
    refine ⟨linked.named, linked.line, fun fd' => ?_⟩
    have old := linked.reported fd'
    rw [reports] at old
    show s.lines fd' ≤ rest.countP _ + _
    by_cases same : fd' = fd
    · subst same
      have none : s.lines fd' = 0 := List.countP_eq_zero.mpr fun entry mem => by
        simpa using finds entry mem
      rw [none]
      exact Nat.zero_le _
    · rwa [if_neg same, Nat.add_zero] at old
  | some node =>
    refine ⟨fun session => ?_, fun session request waits => ?_, fun fd' => ?_⟩
    · simp only [dropNode]
      split
      · rfl
      · exact linked.named session
    · simp only [dropNode] at waits
      split at waits
      · cases waits
      · next stays =>
        have other : request.node ≠ node := by
          intro same
          refine stays ?_
          simp [linked.named, waits, same]
        show ((s.nodeFd.erase node).lookup request.node).isSome = true
        rw [AList.lookup_erase_ne other]
        exact linked.line session request waits
    · have old := linked.reported fd'
      have fewer := lines_erase finds fd'
      rw [reports] at old
      show (s.nodeFd.erase node).entries.countP _ ≤ rest.countP _ +
        if (s.conns fd').isSome then 1 else 0
      omega

/-- A message that is no report is taken from the inbox. -/
theorem takes {mail : Mail} {rest : List Mail} (linked : s.Linked) (first : s.inbox = mail :: rest)
    (other : ¬ (mail.subtype = .error ∨ mail.subtype = .close)) :
    Linked { s with inbox := rest } := by
  refine ⟨linked.named, linked.line, fun fd => ?_⟩
  have old := linked.reported fd
  have same : s.reports fd = rest.countP fun mail => mail.Ends fd := by
    unfold Node.reports
    rw [first, List.countP_cons]
    simp [Mail.Ends, other]
  rwa [same] at old

end Linked

end Node

variable {ι : Type*} [DecidableEq ι] {σ σ' : Net ι} {op : Op ι} {tr tr' : List (Op ι)} {i : ι}
  {tonumber : List UInt8 → Option Handle}

namespace Net

/-! ### What the operations do to the nodes -/

omit [DecidableEq ι] in
theorem write_node (σ : Net ι) (i : ι) (fd : Int32) (msg : List UInt8) :
    (σ.write i fd msg).node = σ.node := by
  unfold Net.write
  split <;> rfl

omit [DecidableEq ι] in
theorem respond_node (σ : Net ι) (i : ι) (h : Handler) (ok : Bool) (data : List UInt8) :
    (σ.respond i h ok data).node = σ.node := by
  unfold Net.respond
  dsimp only
  split
  · rfl
  · exact write_node ..

theorem request_node (σ : Net ι) (i : ι) (node addr payload : List UInt8) (needResponse : Bool)
    (connected : Int32) : (σ.request i node addr payload needResponse connected).node =
      Function.update σ.node i
        ((σ.node i).request node addr payload needResponse connected).1 := by
  unfold Net.request
  split
  · next eq =>
    rw [eq]
    rfl
  · next sent eq =>
    rw [eq]
    dsimp only
    split
    · exact write_node ..
    · exact write_node ..

/-- A message that is no report ends at most the request that it answers. -/
inductive Handles (s : Node) (mail : Mail) : Node → Prop
  | same {s' : Node} (same : s.SameTables s') : Handles s mail s'
  | answer {session : Int64} {ok : Bool} {data : List UInt8} {request : Request}
      (subtype : mail.subtype = .data) (outbound : s.inFd mail.fd = false)
      (unpack : unpackResponse mail.buff = some (session, ok, data))
      (waits : s.sessionCb session = some request) : Handles s mail (s.clear session)

theorem dispatch_node (σ : Net ι) (i : ι) {mail : Mail} (found : Option (List UInt8))
    (other : ¬ (mail.subtype = .error ∨ mail.subtype = .close)) :
    ∃ s, (σ.dispatch tonumber i mail found).node = Function.update σ.node i s ∧
      Handles (σ.node i) mail s := by
  have none : ∃ s, σ.node = Function.update σ.node i s ∧ Handles (σ.node i) mail s :=
    ⟨_, (Function.update_eq_self ..).symm, .same ⟨rfl, rfl, rfl, rfl, rfl, rfl⟩⟩
  unfold dispatch
  split
  · exact ⟨_, rfl, .same ⟨rfl, rfl, rfl, rfl, rfl, rfl⟩⟩
  · next data =>
    split
    · split
      · exact none
      · unfold Net.handleRequest
        split
        · rwa [respond_node]
        · split
          · exact none
          · exact ⟨_, rfl, .same ⟨rfl, rfl, rfl, rfl, rfl, rfl⟩⟩
    · next outbound =>
      unfold Net.handleResponse
      split
      · exact none
      · next session ok text unpack =>
        split
        · exact none
        · next request waits =>
          refine ⟨(σ.node i).clear session, ?_, .answer data (by simpa using outbound) unpack waits⟩
          dsimp only
          split <;> rfl
  · next eq => exact absurd (.inl eq) other
  · next eq => exact absurd (.inr eq) other
  all_goals exact none

/-- `clusterd` handles the first message of its inbox. -/
theorem handle_node {mail : Mail} {rest : List Mail} (report : mail.subtype = .error ∨
    mail.subtype = .close) (σ : Net ι) (i : ι) (found : Option (List UInt8)) :
    ((σ.setNode i { σ.node i with inbox := rest }).dispatch tonumber i mail found).node =
      Function.update σ.node i
        (({ σ.node i with inbox := rest } : Node).dropNode mail.fd found) := by
  unfold dispatch
  rcases report with report | report <;>
  · rw [report]
    dsimp only
    rw [setNode_setNode, setNode_node]
    rfl

/-! ### The tables along a run -/

/-- Every node is linked. -/
def Linked (σ : Net ι) : Prop := ∀ j, (σ.node j).Linked

namespace Linked

omit [DecidableEq ι] in
theorem congr (linked : σ.Linked) (node : σ'.node = σ.node) : σ'.Linked := fun j => by
  rw [node]
  exact linked j

/-- A step of node `i`. -/
theorem update (linked : σ.Linked) {s : Node} (own : s.Linked)
    (node : σ'.node = Function.update σ.node i s) : σ'.Linked := by
  intro j
  rw [node]
  by_cases same : j = i
  · subst same
    rwa [Function.update_self]
  · rw [Function.update_of_ne same]
    exact linked j

theorem setNode (linked : σ.Linked) {s : Node} (own : s.Linked) : (σ.setNode i s).Linked :=
  linked.update own rfl

/-- `clusterd` handles the first message of its inbox. -/
theorem handle (linked : σ.Linked) {mail : Mail} {rest : List Mail} {found : Option (List UInt8)}
    (first : (σ.node i).inbox = mail :: rest)
    (finds : mail.subtype = .error ∨ mail.subtype = .close → (σ.node i).Finds mail.fd found) :
    ((σ.setNode i { σ.node i with inbox := rest }).dispatch tonumber i mail found).Linked := by
  by_cases report : mail.subtype = .error ∨ mail.subtype = .close
  · exact linked.update ((linked i).drops first ⟨rfl, report⟩ (finds report))
      (handle_node report σ i found)
  · have taken := linked.setNode (i := i) ((linked i).takes first report)
    obtain ⟨s, node, handles⟩ :=
      dispatch_node (σ.setNode i { σ.node i with inbox := rest }) i found report
    refine taken.update ?_ node
    cases handles with
    | same same => exact (taken i).keep same
    | answer => exact (taken i).clear _

theorem step (linked : σ.Linked) (step : σ.perform tonumber op = some σ') : σ'.Linked := by
  cases performs_of_perform step with
  | @accept i fd c _ free =>
    have opened := linked.setNode (i := i) ((linked i).opens ⟨c, .inbound⟩ free)
    have accepted := opened.setNode (i := i) ((opened i).posts ⟨.accept, fd, [], ⟨c, .inbound⟩⟩)
    exact accepted.congr rfl
  | @receive i fd e msg msgs isOpen _ =>
    exact (linked.setNode (i := i) ((linked i).posts ⟨.data, fd, msg.drop 2, e⟩)).congr rfl
  | @lose i fd e failed isOpen =>
    have lost := linked.setNode (i := i) ((linked i).loses
      ⟨if failed then .error else .close, fd, [], e⟩ isOpen ⟨rfl, by cases failed <;> simp⟩)
    unfold Net.post
    rw [setNode_setNode, setNode_node]
    exact lost
  | request i node addr payload needResponse =>
    refine linked.update ((linked i).request addr payload needResponse fun fd s' got => ?_)
      (request_node ..)
    obtain ⟨-, rfl | ⟨-, -, valid, -⟩⟩ := Node.Linked.getFd_some got
    · exact linked i
    · exact absurd valid (by decide)
  | @connect i node addr payload needResponse fd server absent _ _ free =>
    have opened := linked.setNode (i := i) ((linked i).opens ⟨σ.conn.length, .outbound⟩ free)
    have connected : (σ.connect i node fd server).Linked := opened.congr rfl
    refine connected.update ((connected i).request addr payload needResponse fun fd' s' got => ?_)
      (request_node ..)
    obtain ⟨-, rfl | ⟨-, -, -, rfl⟩⟩ := Node.Linked.getFd_some got
    · exact connected i
    · simp only [Net.connect, setNode_node]
      exact (linked i).inserts absent free rfl
  | register => exact linked.setNode ((linked _).keep ⟨rfl, rfl, rfl, rfl, rfl, rfl⟩)
  | unregister i name =>
    refine linked.setNode ?_
    unfold Node.unregister
    split
    · exact (linked i).keep ⟨rfl, rfl, rfl, rfl, rfl, rfl⟩
    · exact linked i
  | reload => exact linked.setNode ((linked _).keep ⟨rfl, rfl, rfl, rfl, rfl, rfl⟩)
  | handle first finds => exact linked.handle first finds
  | @reply i h ok data _ =>
    have erased := linked.setNode (i := i)
      (s := { σ.node i with handlers := (σ.node i).handlers.erase h })
      ((linked i).keep ⟨rfl, rfl, rfl, rfl, rfl, rfl⟩)
    exact erased.congr (respond_node ..)

theorem run (run : (network ι tonumber).Run σ tr) : σ.Linked :=
  run.stateInvariant (P := Linked) (by rintro _ rfl; exact fun _ => .initial)
    fun _ _ _ linked step => linked.step step

end Linked

end Net

/-- In every reachable state a request waits only if `node_fd` has a descriptor for its node, and this
descriptor is open or a report that it is closed waits for `clusterd`, whatever connections have had
its number. -/
theorem waits_for_open_or_reported (run : (network ι tonumber).Run σ tr) {session : Int64}
    {request : Request} (waits : (σ.node i).sessionCb session = some request) :
    ∃ fd, (σ.node i).nodeFd.lookup request.node = some fd ∧
      (((σ.node i).conns fd).isSome ∨ ∃ mail ∈ (σ.node i).inbox, mail.Ends fd) := by
  have linked := Net.Linked.run run i
  obtain ⟨fd, found⟩ := Option.isSome_iff_exists.mp (linked.line session request waits)
  refine ⟨fd, found, ?_⟩
  have lines : 0 < (σ.node i).lines fd :=
    List.countP_pos_iff.mpr ⟨⟨_, fd⟩, AList.mem_lookup_iff.mp found, by simp⟩
  have reported := linked.reported fd
  by_cases isOpen : ((σ.node i).conns fd).isSome
  · exact .inl isOpen
  · rw [if_neg isOpen] at reported
    obtain ⟨mail, mem, ends⟩ := List.countP_pos_iff.mp (lines.trans_le reported)
    exact .inr ⟨mail, mem, by simpa using ends⟩

/-- Node 0 waits for a response, and has not handled the report that its connection is lost. -/
theorem waits_for_open_or_reported_lost : ∃ (σ : Net (Fin 3)) (tr : List (Op (Fin 3))),
    (network (Fin 3) one).Run σ tr ∧ ((σ.node 0).sessionCb 1).isSome ∧
      ∃ fd, (σ.node 0).nodeFd.lookup [0x42] = some fd ∧
        (((σ.node 0).conns fd).isSome ∨ ∃ mail ∈ (σ.node 0).inbox, mail.Ends fd) := by
  let ops : List (Op (Fin 3)) :=
    [.reload 0 nodeB, .connect 0 [0x42] [0x31] [7] true 5 1, .lose 0 5 false]
  have waiting : (ops.foldlM (Net.perform one) .initial).map (fun σ => (σ.node 0).sessionCb 1) =
      some (some ⟨[0x42], [0x31], [7], 1⟩) := by decide +kernel
  obtain ⟨σ, steps, waits⟩ := Option.map_eq_some_iff.mp waiting
  have run : (network (Fin 3) one).Run σ ([] ++ ops) :=
    (Transition.System.Run.init rfl).foldlM (fun _ _ _ h => h) steps
  exact ⟨σ, _, run, by rw [waits]; rfl, waits_for_open_or_reported run waits⟩

/-! ### Completion -/

/-- What a request does to the sessions of its node. -/
theorem Node.request_sessions (s : Node) (node addr payload : List UInt8) (needResponse : Bool)
    (connected : Int32) : ∃ s', (s.request node addr payload needResponse connected).1 = s' ∧
      (s'.sessionCb = s.sessionCb ∧ s'.outSession = s.outSession ∨
        needResponse = true ∧ s'.outSession = s.outSession + 1 ∧
          ∀ session, session ≠ s.outSession + 1 → s'.sessionCb session = s.sessionCb session) := by
  refine ⟨_, rfl, ?_⟩
  unfold Node.request
  split
  · exact .inl ⟨rfl, rfl⟩
  · next fd s' got =>
    have same : s'.sessionCb = s.sessionCb ∧ s'.outSession = s.outSession := by
      obtain ⟨-, rfl | ⟨-, -, -, rfl⟩⟩ := Linked.getFd_some got <;> exact ⟨rfl, rfl⟩
    obtain ⟨cb, out⟩ := same
    dsimp only
    cases needResponse with
    | false =>
      refine .inl ?_
      split
      · exact ⟨cb, out⟩
      · exact ⟨cb, out⟩
    | true =>
      refine .inr ⟨rfl, ?_⟩
      simp only [if_true]
      split
      · exact ⟨congrArg (· + 1) out, fun session _ => congrFun cb session⟩
      · split
        · exact ⟨congrArg (· + 1) out, fun session _ => congrFun cb session⟩
        · refine ⟨congrArg (· + 1) out, fun session ne => ?_⟩
          rw [← out] at ne
          exact (Function.update_of_ne ne ..).trans (congrFun cb session)

/-- The operation is a request of node `j` that needs a response. -/
def Op.Asks (j : ι) : Op ι → Prop
  | .request i _ _ _ needResponse | .connect i _ _ _ needResponse _ _ => i = j ∧ needResponse = true
  | _ => False

/-- What a step does to the sessions of node `j`: it starts a request, under the next number, or it
lets some of the waiting ones end. -/
inductive SessionStep (σ : Net ι) (op : Op ι) (s' : Node) (j : ι) : Prop
  | asks (asks : op.Asks j) (out : s'.outSession = (σ.node j).outSession + 1)
      (others : ∀ session, session ≠ (σ.node j).outSession + 1 →
        s'.sessionCb session = (σ.node j).sessionCb session)
  | ends (out : s'.outSession = (σ.node j).outSession)
      (old : ∀ session request, s'.sessionCb session = some request →
        (σ.node j).sessionCb session = some request)
      (completed : ∀ session request, (σ.node j).sessionCb session = some request →
        s'.sessionCb session = some request ∨ ∃ resp, Completes σ op j request resp)

namespace SessionStep

variable {j : ι}

theorem same {s' : Node} (cb : s'.sessionCb = (σ.node j).sessionCb)
    (out : s'.outSession = (σ.node j).outSession) : SessionStep σ op s' j :=
  .ends out (fun _ _ waits => cb ▸ waits) fun _ _ waits => .inl (cb ▸ waits)

/-- A step of node `i`. -/
theorem update {s : Node} (own : SessionStep σ op s i)
    (node : σ'.node = Function.update σ.node i s) (j : ι) : SessionStep σ op (σ'.node j) j := by
  rw [node]
  by_cases eq : j = i
  · subst eq
    rwa [Function.update_self]
  · rw [Function.update_of_ne eq]
    exact same rfl rfl

/-- A step of node `i` that leaves its sessions alone. -/
theorem update_same {s : Node} (node : σ'.node = Function.update σ.node i s)
    (cb : s.sessionCb = (σ.node i).sessionCb ∧ s.outSession = (σ.node i).outSession) (j : ι) :
    SessionStep σ op (σ'.node j) j :=
  update (same cb.1 cb.2) node j

/-- A request of node `i`. -/
theorem request {s : Node} {node addr payload : List UInt8} {needResponse : Bool} {connected : Int32}
    (asks : needResponse = true → op.Asks i) (cb : s.sessionCb = (σ.node i).sessionCb)
    (out : s.outSession = (σ.node i).outSession) :
    SessionStep σ op (s.request node addr payload needResponse connected).1 i := by
  obtain ⟨s', eq, ⟨cb', out'⟩ | ⟨needs, out', others⟩⟩ :=
    s.request_sessions node addr payload needResponse connected
  · rw [eq]
    exact same (cb'.trans cb) (out'.trans out)
  · rw [eq]
    refine .asks (asks needs) (by rw [out', out]) fun session ne => ?_
    rw [others session (by rwa [out]), cb]

theorem of_step (step : σ.perform tonumber op = some σ') (j : ι) : SessionStep σ op (σ'.node j) j := by
  cases Net.performs_of_perform step with
  | accept | lose =>
    unfold Net.post
    rw [Net.setNode_setNode, Net.setNode_node]
    apply update_same
    case node => rfl
    case cb => exact ⟨rfl, rfl⟩
  | receive | register | reload =>
    apply update_same
    case node => rfl
    case cb => exact ⟨rfl, rfl⟩
  | request i node addr payload needResponse =>
    have asks : needResponse = true → (Op.request i node addr payload needResponse).Asks i :=
      fun needs => ⟨rfl, needs⟩
    exact update (request asks rfl rfl) (Net.request_node ..) j
  | @connect i node addr payload needResponse fd server _ _ _ _ =>
    have asked := Net.request_node (σ.connect i node fd server) i node addr payload needResponse fd
    simp only [Net.connect, Net.setNode, Function.update_idem, Function.update_self] at asked
    have asks : needResponse = true →
        (Op.connect i node addr payload needResponse fd server).Asks i := fun needs => ⟨rfl, needs⟩
    refine update ?_ asked j
    exact request asks rfl rfl
  | unregister i name =>
    apply update_same
    case node => rfl
    case cb =>
      unfold Node.unregister
      split <;> exact ⟨rfl, rfl⟩
  | reply =>
    apply update_same
    case node => exact Net.respond_node ..
    case cb => exact ⟨rfl, rfl⟩
  | @handle i found mail rest first finds =>
    by_cases report : mail.subtype = .error ∨ mail.subtype = .close
    · refine update ?_ (Net.handle_node report σ i found) j
      cases found with
      | none => exact same rfl rfl
      | some node =>
        refine .ends rfl (fun session request waits => ?_) fun session request waits => ?_
        · simp only [Node.dropNode] at waits
          split at waits
          · cases waits
          · exact waits
        · by_cases named : (σ.node i).sessionNode session = some node
          · exact .inr ⟨none, .dropped first report (finds report) waits named⟩
          · refine .inl ?_
            simp [Node.dropNode, named, waits]
    · obtain ⟨s, node, handles⟩ :=
        Net.dispatch_node (σ.setNode i { σ.node i with inbox := rest }) i found report
      simp only [Net.setNode, Function.update_idem, Function.update_self] at node handles
      refine update ?_ node j
      cases handles with
      | same tables => exact same tables.cb tables.out
      | @answer session ok data request subtype outbound unpack waits =>
        refine .ends rfl (fun session' request' waits' => ?_) fun session' request' waits' => ?_
        · by_cases eq : session' = session
          · subst eq
            simp [Node.clear] at waits'
          · simpa only [Node.clear, Function.update_of_ne eq] using waits'
        · by_cases eq : session' = session
          · subst eq
            cases waits.symm.trans waits'
            cases ok with
            | true => exact .inr ⟨some data, .responded first subtype outbound unpack waits⟩
            | false => exact .inr ⟨none, .refused first subtype outbound unpack waits⟩
          · refine .inl ?_
            simpa only [Node.clear, Function.update_of_ne eq] using waits'

end SessionStep

/-- The session numbers do not wrap. -/
def CountsOn (σ : Net ι) (op : Op ι) : Prop := ∀ j, op.Asks j → (σ.node j).outSession ≠ Int64.maxValue

/-- A waiting request has a number that was counted. -/
theorem session_le (run : ((network ι tonumber).restrict CountsOn).Run σ tr) {session : Int64}
    {request : Request} (waits : (σ.node i).sessionCb session = some request) :
    session.toInt ≤ (σ.node i).outSession.toInt := by
  revert session request
  refine run.stateInvariant (P := fun σ => ∀ {session request},
    (σ.node i).sessionCb session = some request → session.toInt ≤ (σ.node i).outSession.toInt) ?_ ?_
  · rintro _ rfl session request ⟨⟩
  · intro σ op σ' ih step session request waits
    cases SessionStep.of_step step.1 i with
    | asks asks out others =>
      have next := Net.toInt_add_one (step.2 i asks)
      rw [out]
      by_cases new : session = (σ.node i).outSession + 1
      · rw [new]
      · rw [others session new] at waits
        have := ih waits
        omega
    | ends out old =>
      rw [out]
      exact ih (old session request waits)

/-- No call waits for ever: of the requests that node `i` waits for, each has succeeded or failed by
the time all descriptors of the node are closed and `clusterd` has handled its messages, whatever the
nodes and the engines did until then. -/
theorem calls_complete (run : ((network ι tonumber).restrict CountsOn).Run σ tr)
    (later : (((network ι tonumber).restrict CountsOn).after σ).Run σ' tr')
    (closed : ∀ fd, (σ'.node i).conns fd = none) (handled : (σ'.node i).inbox = [])
    {session : Int64} {request : Request}
    (waits : (σ.node i).sessionCb session = some request) :
    ∃ tr₁ σ₁ op tr₂ resp, tr' = tr₁ ++ op :: tr₂ ∧ ((network ι tonumber).after σ).Run σ₁ tr₁ ∧
      Completes σ₁ op i request resp := by
  have still : (σ'.node i).sessionCb session = some request ∨
      ∃ tr₁ σ₁ op tr₂ resp, tr' = tr₁ ++ op :: tr₂ ∧ ((network ι tonumber).after σ).Run σ₁ tr₁ ∧
        Completes σ₁ op i request resp := by
    clear closed handled
    induction later with
    | init h =>
      rw [show _ = σ from h]
      exact .inl waits
    | @step σ₁ σ' tr₁ op later step ih =>
      rcases ih with waits | ⟨tr₁, σ₁, op₁, tr₂, resp, rfl, before, completes⟩
      · cases SessionStep.of_step step.1 i with
        | asks asks out others =>
          have low := session_le (run.append later) waits
          have next := Net.toInt_add_one (step.2 i asks)
          refine .inl ((others session fun new => ?_).trans waits)
          rw [new] at low
          omega
        | ends _ _ completed =>
          refine (completed session request waits).imp id fun ⟨resp, completes⟩ => ?_
          have free := System.Run.of_restrict (S := (network ι tonumber).after σ) (C := CountsOn) later
          exact ⟨tr₁, σ₁, op, [], resp, rfl, free, completes⟩
      · exact .inr ⟨tr₁, σ₁, op₁, tr₂ ++ [op], resp, by simp, before, completes⟩
  refine still.resolve_left fun waits' => ?_
  have whole := (run.append later).of_restrict
  obtain ⟨fd, -, isOpen | ⟨mail, mem, -⟩⟩ := waits_for_open_or_reported whole waits'
  · rw [closed fd] at isOpen
    cases isOpen
  · rw [handled] at mem
    cases mem

/-- The call of node 0 fails when its connection is lost. -/
theorem calls_complete_lost : ∃ (σ : Net (Fin 3)) (tr tr₁ : List (Op (Fin 3))) (op : Op (Fin 3))
    (tr₂ : List (Op (Fin 3))) (σ₁ : Net (Fin 3)) (resp : Option (List UInt8)),
    ((network (Fin 3) one).restrict CountsOn).Run σ tr ∧
      [.lose 0 5 false, .handle 0 (some [0x42])] = tr₁ ++ op :: tr₂ ∧
      Completes σ₁ op 0 ⟨[0x42], [0x31], [7], 1⟩ resp := by
  have step : ∀ {σ : Net (Fin 3)} (op : Op (Fin 3)) {σ'}, σ.perform one op = some σ' →
      CountsOn σ op → ((network (Fin 3) one).restrict CountsOn).step σ op σ' :=
    fun _ _ h counts => ⟨h, counts⟩
  have h0 : ((network (Fin 3) one).restrict CountsOn).Run Net.initial [] := .init rfl
  have h1 := h0.step (step (.reload 0 nodeB) rfl nofun)
  have h2 := h1.step (step (.connect 0 [0x42] [0x31] [7] true 5 1) rfl
    (by rintro j ⟨rfl, -⟩; decide))
  have l1 := h2.here.step (step (.lose 0 5 false) rfl nofun)
  have l2 := l1.step (step (.handle 0 (some [0x42])) rfl nofun)
  have closed : ∀ fd : Int32, Function.update (Function.update (fun _ => none) 5
      (some (⟨0, .outbound⟩ : End))) 5 none fd = none := by
    intro fd
    rw [Function.update_idem]
    by_cases same : fd = 5
    · rw [same, Function.update_self]
    · rw [Function.update_of_ne same]
  obtain ⟨tr₁, σ₁, op, tr₂, resp, split, -, completes⟩ :=
    calls_complete (i := 0) h2 l2 closed rfl (show Node.sessionCb _ 1 = _ from rfl)
  exact ⟨_, _, tr₁, op, tr₂, σ₁, resp, h2, split, completes⟩

end Starnet.Clusterd
