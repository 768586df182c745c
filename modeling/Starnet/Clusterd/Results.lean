import Starnet.Clusterd.Answers
import Starnet.Clusterd.Replies

/-! What `cluster.call` and `cluster.query` return. `clusterd` passes the outcome of `request` to
`starnet.ret`, which makes a string of every value, also of nil and of a number. -/

namespace Starnet.Clusterd

open StringPack Host

/-! ### Commands -/

/-- `pack_message`. -/
def packMessage (args : List (List UInt8)) : Option (List UInt8) := do
  let n ← packInt 1 args.length
  let parts ← args.mapM (StringPack.packString 4)
  return n ++ parts.flatten

/-- The loop of `unpack_message`. -/
def unpackArgs : (n : Nat) → List UInt8 → Option (List (List UInt8))
  | 0, _ => some []
  | n + 1, buff => do
    let (s, buff) ← unpackString 4 buff
    let args ← unpackArgs n buff
    return s :: args

def unpackMessage (buff : List UInt8) : Option (List (List UInt8)) := do
  let (n, buff) ← unpackInt 1 buff
  unpackArgs n.toNat buff

theorem unpackArgs_mapM {args parts : List (List UInt8)}
    (packed : args.mapM (StringPack.packString 4) = some parts) :
    unpackArgs args.length parts.flatten = some args := by
  induction args generalizing parts with
  | nil => rfl
  | cons arg args ih =>
    simp only [List.mapM_cons, Option.bind_eq_bind, Option.bind_eq_some_iff] at packed
    obtain ⟨part, first, rest, others, eq⟩ := packed
    obtain rfl := Option.some.inj eq
    simp only [List.length_cons, unpackArgs, List.flatten_cons, unpackString_packString first,
      Option.bind_eq_bind, Option.bind_some, ih others, Option.pure_def]

/-- The arguments of a command come to `clusterd` as `cluster.lua` packs them. -/
theorem unpackMessage_packMessage {args : List (List UInt8)} {buff : List UInt8}
    (packed : packMessage args = some buff) : unpackMessage buff = some args := by
  simp only [packMessage, Option.bind_eq_bind, Option.bind_eq_some_iff] at packed
  obtain ⟨n, count, parts, all, eq⟩ := packed
  obtain rfl := Option.some.inj eq
  simp only [unpackMessage, unpackInt_packInt (by decide) count, Option.bind_eq_bind,
    Option.bind_some, Int.toNat_natCast]
  exact unpackArgs_mapM all

/-- The message of `starnet.ret`; `tostring` is for the values that are no strings. -/
def retText (tostring : LuaSeri.Value → List UInt8) : LuaSeri.Value → List UInt8
  | .nil => []
  | .string s => s
  | v => tostring v

/-- What `starnet.call` of a service returns when it passes `v` to `starnet.ret`. -/
def returnedBy (tostring : LuaSeri.Value → List UInt8) (v : LuaSeri.Value) : LuaSeri.Value :=
  .string (retText tostring v)

/-- `command.call` and `cluster.call`, when `request` returns true and `resp`, or fails. -/
def clusterCall (tostring : LuaSeri.Value → List UInt8) (resp : Option (List UInt8)) :
    LuaSeri.Value :=
  returnedBy tostring (match resp with
    | none => .nil
    | some resp => .string resp)

/-- `command.query` and `cluster.query`. -/
def clusterQuery (tostring : LuaSeri.Value → List UInt8) (tonumber : List UInt8 → Option Numeral)
    (resp : Option (List UInt8)) : LuaSeri.Value :=
  returnedBy tostring (match resp with
    | none => .nil
    | some resp => ((tonumber resp).map Numeral.value).getD .nil)

variable {ι : Type*} [DecidableEq ι] {σ σ' : Net ι} {op : Op ι} {tr : List (Op ι)} {i : ι}
  {request : Request} {resp : Option (List UInt8)} {tonumber : List UInt8 → Option Handle}

/-- The step ends a `request` of node `i` that needs a response, and it fails: it raises an error before
it waits, the response is not ok, or the connection is lost. -/
inductive Fails (σ : Net ι) : Op ι → ι → Request → Prop
  | raised {i : ι} {node addr payload : List UInt8}
      (error : ((σ.node i).request node addr payload true (-1)).2 = none) :
      Fails σ (.request i node addr payload true) i ⟨node, addr, payload, 0⟩
  | raisedConnected {i : ι} {node addr payload : List UInt8} {fd : Int32} {server : ι}
      (error : (((σ.connect i node fd server).node i).request node addr payload true fd).2 = none) :
      Fails σ (.connect i node addr payload true fd server) i ⟨node, addr, payload, 0⟩
  | refused {i : ι} {found : Option (List UInt8)} {mail : Mail} {rest : List Mail}
      {session : Int64} {data : List UInt8} {request : Request}
      (first : (σ.node i).inbox = mail :: rest) (subtype : mail.subtype = .data)
      (outbound : (σ.node i).inFd mail.fd = false)
      (unpack : unpackResponse mail.buff = some (session, false, data))
      (waits : (σ.node i).sessionCb session = some request) : Fails σ (.handle i found) i request
  | dropped {i : ι} {node : List UInt8} {mail : Mail} {rest : List Mail} {session : Int64}
      {request : Request} (first : (σ.node i).inbox = mail :: rest)
      (subtype : mail.subtype = .error ∨ mail.subtype = .close)
      (finds : (σ.node i).Finds mail.fd (some node))
      (waits : (σ.node i).sessionCb session = some request)
      (named : (σ.node i).sessionNode session = some node) :
      Fails σ (.handle i (some node)) i request

/-- The step ends a `request` with a response that is ok. -/
inductive Succeeds (σ : Net ι) : Op ι → ι → Request → List UInt8 → Prop
  | responded {i : ι} {found : Option (List UInt8)} {mail : Mail} {rest : List Mail}
      {session : Int64} {data : List UInt8} {request : Request}
      (first : (σ.node i).inbox = mail :: rest) (subtype : mail.subtype = .data)
      (outbound : (σ.node i).inFd mail.fd = false)
      (unpack : unpackResponse mail.buff = some (session, true, data))
      (waits : (σ.node i).sessionCb session = some request) :
      Succeeds σ (.handle i found) i request data

/-- The step ends a `request`, which returns true with `resp` or fails. -/
def Completes (σ : Net ι) (op : Op ι) (i : ι) (request : Request) :
    (resp : Option (List UInt8)) → Prop
  | none => Fails σ op i request
  | some data => Succeeds σ op i request data

theorem Succeeds.not_fails {data : List UInt8} (success : Succeeds σ op i request data) :
    ¬ Fails σ op i request := by
  obtain ⟨first, subtype, -, unpack, waits⟩ := success
  intro failure
  cases failure with
  | refused first' _ _ unpack' waits' =>
    cases first.symm.trans first'
    cases unpack.symm.trans unpack'
  | dropped first' closed =>
    cases first.symm.trans first'
    rw [subtype] at closed
    rcases closed with closed | closed <;> cases closed

/-- On a node that was connected under the name in the request, the call of a local service for this
very request returned `text`. -/
def PassedToRet (tr : List (Op ι)) (σ : Net ι) (i : ι) (request : Request) (text : List UInt8) :
    Prop :=
  ∃ h conn, σ.conn[h.conn]? = some conn ∧ .reply conn.server h true text ∈ tr ∧
    conn.client = i ∧ conn.node = request.node ∧ h.addr = request.addr ∧
    h.payload = request.payload ∧ h.session = request.session

/-- A call returns nil when it fails, and else what the service passed to `starnet.ret`. -/
structure CallFaithful (tr : List (Op ι)) (σ : Net ι) (i : ι) (request : Request)
    (resp : Option (List UInt8)) (value : LuaSeri.Value) : Prop where
  nil_iff : value = .nil ↔ resp = none
  text : ∀ text, resp = some text → value = .string text ∧ PassedToRet tr σ i request text

/-- A query returns nil when it fails, and else a handle that is a number. -/
structure QueryFaithful (resp : Option (List UInt8)) (value : LuaSeri.Value) : Prop where
  nil_iff : value = .nil ↔ resp = none
  handle : ∀ text, resp = some text → ∃ handle, value = .integer handle

/-- A local call that is over with true has the text of a service that returned. -/
theorem ret_of_localCall {n : Nat} {position payload text : List UInt8} {srv : ServiceRef}
    {host : Host} {resolving core : Core.State n} {handle : LuaSeri.Value} {service : ServiceEnd}
    (ended : localCall position srv host resolving core handle payload service = some (true, text)) :
    service = .ret text := by
  unfold localCall at ended
  dsimp only at ended
  split at ended
  · cases ended
  · split at ended
    · cases ended
    · split at ended
      · rw [resumes_answer] at ended
        cases service with
        | ret text' =>
          cases ended
          rfl
        | error | killed => cases ended
      · cases ended

/-! ### The answers of a run -/

theorem Node.getFd_handlers {s s' : Node} {node : List UInt8} {connected fd : Int32}
    (got : s.getFd node connected = some (fd, s')) : s'.handlers = s.handlers := by
  unfold Node.getFd at got
  split at got
  · cases got
    rfl
  · split at got
    · cases got
    · split at got
      · cases got
      · cases got
        rfl

theorem Node.request_handlers (s : Node) (node addr payload : List UInt8) (needResponse : Bool)
    (connected : Int32) :
    (s.request node addr payload needResponse connected).1.handlers = s.handlers := by
  have counted : ∀ s : Node,
      (if needResponse then { s with outSession := s.outSession + 1 } else s).handlers =
        s.handlers := by
    intro s
    split <;> rfl
  have waited : ∀ (s : Node) (request : Request),
      (if request.session = 0 then s else s.wait request).handlers = s.handlers := by
    intro s request
    split <;> rfl
  unfold Node.request
  split
  · rfl
  · next got =>
    rw [← Node.getFd_handlers got]
    dsimp only
    split
    · exact counted _
    · exact (waited _ ⟨node, addr, payload, _⟩).trans (counted _)

theorem Node.dropNode_handlers (s : Node) (fd : Int32) (found : Option (List UInt8)) :
    (s.dropNode fd found).handlers = s.handlers := by
  cases found <;> rfl

theorem Node.unregister_handlers (s : Node) (name : List UInt8) :
    (s.unregister name).handlers = s.handlers := by
  unfold Node.unregister
  split <;> rfl

/-- The same handlers wait, and the same answers were given. -/
structure SameAnswers (σ σ' : Net ι) : Prop where
  replied : σ'.replied = σ.replied
  handlers : ∀ j, (σ'.node j).handlers = (σ.node j).handlers

namespace SameAnswers

omit [DecidableEq ι] in
theorem trans {σ'' : Net ι} (first : SameAnswers σ σ') (second : SameAnswers σ' σ'') :
    SameAnswers σ σ'' :=
  ⟨second.replied.trans first.replied, fun j => (second.handlers j).trans (first.handlers j)⟩

theorem setNode {s : Node} (same : s.handlers = (σ.node i).handlers) :
    SameAnswers σ (σ.setNode i s) := by
  refine ⟨rfl, fun j => ?_⟩
  by_cases eq : j = i
  · subst eq
    rw [Net.setNode_node]
    exact same
  · rw [Net.setNode_other σ s eq]

omit [DecidableEq ι] in
theorem write (fd : Int32) (msg : List UInt8) : SameAnswers σ (σ.write i fd msg) := by
  unfold Net.write
  split <;> exact ⟨rfl, fun _ => rfl⟩

theorem ask (node addr payload : List UInt8) (needResponse : Bool) (connected : Int32) :
    SameAnswers σ (σ.request i node addr payload needResponse connected) := by
  have own := (σ.node i).request_handlers node addr payload needResponse connected
  unfold Net.request
  split
  · next eq =>
    rw [eq] at own
    exact setNode own
  · next sent eq =>
    rw [eq] at own
    dsimp only
    split
    · exact (setNode own).trans (write _ _)
    · have written := (setNode (σ := σ) own).trans (write (i := i) sent.fd sent.msg)
      exact ⟨written.replied, written.handlers⟩

theorem handleResponse (msg : List UInt8) : SameAnswers σ (σ.handleResponse i msg) := by
  have cleared : ∀ session, SameAnswers σ (σ.setNode i ((σ.node i).clear session)) :=
    fun _ => setNode rfl
  unfold Net.handleResponse
  split
  · exact ⟨rfl, fun _ => rfl⟩
  · split
    · exact ⟨rfl, fun _ => rfl⟩
    · dsimp only
      split
      · exact ⟨rfl, (cleared _).handlers⟩
      · exact cleared _

end SameAnswers

/-- What a run keeps: an answer to a request with an address is that of a local call, and only
requests with an address wait for one. -/
structure Told (σ : Net ι) (tr : List (Op ι)) : Prop where
  replied : ∀ j h data, (j, h, true, data) ∈ σ.replied → h.addr ≠ [] →
    .reply j h true data ∈ tr
  reply : ∀ j h ok data, .reply j h ok data ∈ tr → h.addr ≠ []
  handlers : ∀ j, ∀ h ∈ (σ.node j).handlers, h.addr ≠ []

namespace Told

omit [DecidableEq ι] in
theorem initial : Told (Net.initial : Net ι) [] where
  replied _ _ _ mem := by cases mem
  reply _ _ _ _ mem := by cases mem
  handlers _ _ mem := by cases mem

omit [DecidableEq ι] in
theorem frame (told : Told σ tr) (same : SameAnswers σ σ') : Told σ' tr where
  replied j h data mem := by
    rw [same.replied] at mem
    exact told.replied j h data mem
  reply := told.reply
  handlers j h mem := by
    rw [same.handlers] at mem
    exact told.handlers j h mem

omit [DecidableEq ι] in
theorem append (told : Told σ tr) (call : ∀ j h ok data, op = .reply j h ok data → h.addr ≠ []) :
    Told σ (tr ++ [op]) where
  replied j h data mem ne := List.mem_append_left _ (told.replied j h data mem ne)
  reply j h ok data mem := by
    rcases List.mem_append.mp mem with mem | mem
    · exact told.reply j h ok data mem
    · exact call j h ok data (List.mem_singleton.mp mem).symm
  handlers := told.handlers

theorem setNode (told : Told σ tr) {s : Node} (same : s.handlers = (σ.node i).handlers) :
    Told (σ.setNode i s) tr := told.frame (.setNode same)

omit [DecidableEq ι] in
theorem respond (told : Told σ tr) {h : Handler} {ok : Bool} {data : List UInt8}
    (answer : ok = true → h.addr ≠ [] → .reply i h true data ∈ tr) :
    Told (σ.respond i h ok data) tr := by
  have noted : Told { σ with replied := σ.replied ++ [(i, h, ok, data)] } tr := by
    refine ⟨fun j h' data' mem call => ?_, told.reply, told.handlers⟩
    rcases List.mem_append.mp mem with mem | mem
    · exact told.replied j h' data' mem call
    · cases List.mem_singleton.mp mem
      exact answer rfl call
  unfold Net.respond
  dsimp only
  split
  · exact noted
  · exact noted.frame (.write _ _)

/-- `handle_request` answers at once with true only to a request without an address. -/
theorem handleRequest (told : Told σ tr) (h : Handler) :
    Told (σ.handleRequest tonumber i h) tr := by
  unfold Net.handleRequest
  split
  · next ok data atOnce =>
    refine told.respond fun success call => ?_
    subst success
    rw [Node.answerAtOnce, if_neg call] at atOnce
    dsimp only at atOnce
    split at atOnce <;> cases atOnce
  · next later =>
    split
    · exact told
    · refine ⟨told.replied, told.reply, fun j h' mem => ?_⟩
      by_cases eq : j = i
      · subst eq
        rw [Net.setNode_node] at mem
        rcases List.mem_append.mp mem with mem | mem
        · exact told.handlers j h' mem
        · rw [List.mem_singleton.mp mem]
          intro query
          rw [Node.answerAtOnce, if_pos query] at later
          split at later <;> cases later
      · rw [Net.setNode_other _ _ eq] at mem
        exact told.handlers j h' mem

theorem dispatch (told : Told σ tr) (mail : Mail) (found : Option (List UInt8)) :
    Told (σ.dispatch tonumber i mail found) tr := by
  unfold Net.dispatch
  cases mail.subtype with
  | accept => exact told.setNode rfl
  | data =>
    dsimp only
    split
    · split
      · exact told
      · exact told.handleRequest _
    · exact told.frame (.handleResponse mail.buff)
  | error | close => exact told.setNode (Node.dropNode_handlers ..)
  | connect | udp | warning => exact told

/-- A handler that is over is removed. -/
theorem eraseHandler (told : Told σ tr) (i : ι) (h : Handler) :
    Told (σ.setNode i { σ.node i with handlers := (σ.node i).handlers.erase h }) tr := by
  refine ⟨told.replied, told.reply, fun j h' mem => ?_⟩
  by_cases eq : j = i
  · subst eq
    rw [Net.setNode_node] at mem
    exact told.handlers j h' (List.mem_of_mem_erase mem)
  · rw [Net.setNode_other _ _ eq] at mem
    exact told.handlers j h' mem

theorem step (told : Told σ tr) (step : σ.perform tonumber op = some σ') :
    Told σ' (tr ++ [op]) := by
  have quiet (other : ∀ i h ok data, op ≠ .reply i h ok data) : Told σ (tr ++ [op]) :=
    told.append fun i h ok data same => absurd same (other i h ok data)
  cases Net.performs_of_perform step with
  | @accept i fd c _ _ =>
    have accepted : Told { σ with accepted := Function.update σ.accepted c true } _ :=
      (quiet (by simp)).frame ⟨rfl, fun _ => rfl⟩
    exact (accepted.setNode (by rfl)).setNode (by rfl)
  | @receive i fd e msg msgs _ _ =>
    have taken : Told (σ.setFlight e.conn e.side.peer msgs) _ :=
      (quiet (by simp)).frame ⟨rfl, fun _ => rfl⟩
    exact taken.setNode rfl
  | lose => exact ((quiet (by simp)).setNode (by rfl)).setNode (by rfl)
  | request => exact (quiet (by simp)).frame (.ask ..)
  | @connect i node addr payload needResponse fd server _ _ _ _ =>
    have connected : Told (σ.connect i node fd server) _ :=
      (quiet (by simp)).frame ⟨rfl, (SameAnswers.setNode (by rfl)).handlers⟩
    exact connected.frame (.ask ..)
  | register => exact (quiet (by simp)).setNode rfl
  | unregister => exact (quiet (by simp)).setNode (Node.unregister_handlers ..)
  | reload => exact (quiet (by simp)).setNode rfl
  | @handle i found mail rest _ _ => exact ((quiet (by simp)).setNode (by rfl)).dispatch mail found
  | @reply i h ok data mem =>
    have told : Told σ (tr ++ [.reply i h ok data]) := told.append fun j h' ok' data' eq => by
      cases eq
      exact told.handlers i h mem
    refine (told.eraseHandler i h).respond fun success _ => ?_
    rw [success]
    exact List.mem_append_right _ List.mem_cons_self

theorem run (run : (network ι tonumber).Run σ tr) : Told σ tr := by
  induction run with
  | init start =>
    rw [start]
    exact initial
  | step run step ih => exact ih.step step

end Told

/-! ### The results of a run -/

/-- A request that succeeds returns, in a step that adds no answer. -/
theorem Succeeds.returned {data : List UInt8} (success : Succeeds σ op i request data)
    (step : σ.perform tonumber op = some σ') :
    (i, request, data) ∈ σ'.returned ∧ σ'.replied = σ.replied ∧ σ'.conn = σ.conn := by
  obtain ⟨first, subtype, outbound, unpack, waits⟩ := success
  next found mail rest session =>
    have taken : mail.subtype = .error ∨ mail.subtype = .close →
        (σ.node i).Finds mail.fd found := by
      rw [subtype]
      rintro (closed | closed) <;> cases closed
    simp only [Net.perform, first, if_pos taken, Option.some.injEq] at step
    subst step
    simp only [Net.dispatch, subtype, Net.setNode_node, outbound, Net.handleResponse, unpack, waits,
      Bool.false_eq_true, if_false, if_true]
    exact ⟨List.mem_append_right _ List.mem_cons_self, rfl, rfl⟩

/-- The text that a request returns was passed to `starnet.ret`, for this very request, exactly when
it has an address. -/
theorem passedToRet_iff (run : ((network ι tonumber).restrict (KeepsNumbers tonumber)).Run σ tr)
    (step : σ.perform tonumber op = some σ') (keeps : KeepsNumbers tonumber σ op)
    {text : List UInt8} (success : Succeeds σ op i request text) :
    PassedToRet tr σ i request text ↔ request.addr ≠ [] := by
  have told := Told.run run.of_restrict
  constructor
  · rintro ⟨h, conn, -, reply, -, -, addr, -⟩
    rw [← addr]
    exact told.reply _ h true text reply
  · intro call
    have good : σ.Good := run.stateInvariant
      (by rintro s rfl; exact Net.initial_good) fun s op s' good step => good.step step.1 step.2
    obtain ⟨returned, replied, conns⟩ := success.returned step
    obtain ⟨-, h, conn, found, answer, client, node, addr, rest⟩ :=
      (good.step step keeps).returned i request text returned
    rw [conns] at found
    rw [replied] at answer
    rw [← addr] at call
    exact ⟨h, conn, found, told.replied _ h text answer call, client, node, addr, rest⟩

end Starnet.Clusterd
