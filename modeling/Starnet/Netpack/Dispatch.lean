import Starnet.Netpack.Service

/-! Packets and failing handlers. `starnet.dispatch_socket` pops the packets of a chunk one by one
and runs user code in between. A handler that raises an error leaves the loop with it, and the
packets that follow stay in the ring: they are dispatched after the first packet of a later chunk,
for the connection that has the descriptor then. For every sequence of messages, no packet is lost,
late or misdirected exactly when a handler raises an error only at the last packet that its chunk
completes. -/

namespace Starnet

namespace LuaNetpack.Queue

open Framing

variable {q : Queue}

/-- The loop pops what the handlers leave it time for. -/
theorem popUntil_spec (valid : q.Valid) {fuel : Nat} (h : q.packets.length < fuel) (returns : Nat) :
    ∃ q', popUntil fuel returns q = some (q.packets.take returns, q') ∧ q'.Valid ∧
      q'.packets = q.packets.drop returns ∧ q'.hash = q.hash := by
  induction fuel generalizing q returns with
  | zero => omega
  | succ fuel ih =>
    cases returns with
    | zero => exact ⟨q, rfl, valid, rfl, rfl⟩
    | succ returns =>
      have spec := lpop_spec valid.bounds
      rw [popUntil]
      cases popped : q.lpop with
      | none =>
        rw [popped] at spec
        exact ⟨q, by rw [spec]; rfl, valid, by rw [spec]; rfl, rfl⟩
      | some result =>
        obtain ⟨packet, q'⟩ := result
        rw [popped] at spec
        obtain ⟨packets, bounds, hash, -⟩ := spec
        rw [packets, List.length_cons] at h
        obtain ⟨q'', rest, valid', left, hash'⟩ := ih
          ⟨bounds, by rw [hash]; exact valid.chains⟩ (Nat.lt_of_succ_lt_succ h) returns
        refine ⟨q'', ?_, valid', by rw [left, packets]; rfl, hash'.trans hash⟩
        show (popUntil fuel returns q').map _ = _
        rw [rest, packets]
        rfl

/-- What a chunk does to the queue when `dispatched` of its packets are dispatched. -/
structure Dispatches (q q' : Queue) (fd : Int32) (chunk : List UInt8) (dispatched : Nat) : Prop where
  valid : q'.Valid
  packets : q'.packets =
    ((payloads readSize (q.pending fd ++ chunk)).drop dispatched).map fun msg => (fd, msg)
  pending : q'.pending fd = leftover readSize (q.pending fd ++ chunk)
  others : ∀ fd', fd' ≠ fd → q'.pending fd' = q.pending fd'

/-- With an empty ring, the packets of one chunk are dispatched up to the first handler that raises
an error, and the others stay in the ring. -/
theorem dispatchData_spec (valid : q.Valid) (empty : q.packets = []) (fd : Int32)
    (chunk : List UInt8) (returns : Nat) :
    ∃ q', q.dispatchData fd chunk returns = some
        (((payloads readSize (q.pending fd ++ chunk)).take (returns + 1)).map fun msg => (fd, msg), q') ∧
      q.Dispatches q' fd chunk (returns + 1) := by
  have yields := filterData_yields valid fd chunk
  unfold dispatchData
  cases filtered : q.filterData fd chunk with
  | mk result q' =>
    rw [filtered] at yields
    cases result with
    | none =>
      obtain ⟨parsed, receives⟩ := yields
      rw [parsed]
      exact ⟨q', rfl, receives.valid, by rw [receives.packets, empty, parsed]; rfl,
        receives.pending, receives.others⟩
    | data fd' msg =>
      obtain ⟨rfl, parsed, receives⟩ := yields
      refine ⟨q', by rw [parsed, List.take_succ_cons, List.take_nil]; rfl, receives.valid, ?_,
        receives.pending, receives.others⟩
      rw [receives.packets, empty, parsed, List.drop_succ_cons, List.drop_nil]
      rfl
    | more fd' msg =>
      obtain ⟨rfl, msgs, parsed, receives⟩ := yields
      have inside := receives.valid.bounds
      have short : q'.packets.length < q'.cap := by
        rw [packets, List.length_map]
        exact Ring.length_content_lt _ inside.head inside.tail
      obtain ⟨q'', popped, valid', left, hash⟩ :=
        popUntil_spec receives.valid short returns
      have ring : q'.packets = msgs.map fun msg => (fd', msg) := by
        rw [receives.packets, empty, List.nil_append]
      refine ⟨q'', ?_, valid', ?_, ?_, fun fd ne => ?_⟩
      · simp only [popped, parsed, ring, List.take_succ_cons, List.map_cons, List.map_take,
          Option.map_some]
      · rw [left, ring, parsed, List.drop_succ_cons, List.map_drop]
      · rw [pending, hash]
        exact receives.pending
      · rw [pending, hash]
        exact receives.others fd ne

end LuaNetpack.Queue

namespace Dispatch

open Framing LuaNetpack

/-- A message for `starnet.dispatch_socket` in framed mode. The handlers of the first `returns`
packets that are dispatched for a chunk return or yield, and that of the next one raises an error.
-/
inductive Message
  | data (fd : Int32) (chunk : List UInt8) (returns : Nat)
  | close (fd : Int32)

/-- The connections of a descriptor are numbered by the `CLOSE` messages before them. `received` and
`dispatched` hold the bytes of a connection and the packets whose handlers were started for it. -/
structure State where
  queue : Queue
  closed : Int32 → Nat
  received : Int32 → Nat → List UInt8
  dispatched : Int32 → Nat → List (List UInt8)

namespace State

def initial : State := ⟨.lcreate, fun _ => 0, fun _ _ => [], fun _ _ => []⟩

/-- The `DATA` and `CLOSE` branches of `starnet.dispatch_socket`. -/
def handle (s : State) : Message → Option State
  | .data fd chunk returns =>
    (s.queue.dispatchData fd chunk returns).map fun (packets, queue) => { s with
      queue
      received := Function.update s.received fd
        (Function.update (s.received fd) (s.closed fd) (s.received fd (s.closed fd) ++ chunk))
      dispatched := Framed.State.deliver s.closed s.dispatched packets }
  | .close fd => some { s with
      queue := s.queue.lclose fd
      closed := Function.update s.closed fd (s.closed fd + 1) }

/-- The state after a sequence of messages; `none` if a dispatch does not end. -/
def handleAll (msgs : List Message) : Option State := msgs.foldlM handle initial

/-- The packets that a chunk of the present connection of `fd` completes. -/
def completed (s : State) (fd : Int32) (chunk : List UInt8) : List (List UInt8) :=
  payloads readSize (leftover readSize (s.received fd (s.closed fd)) ++ chunk)

/-- A handler that raises an error is that of the last packet of the chunk. -/
def RaisesLast (s : State) : Message → Prop
  | .data fd chunk returns => (s.completed fd chunk).length ≤ returns + 1
  | .close _ => True

/-- No complete packet is left in the queue, and for every connection a handler was started for
each of its packets, in order. -/
structure Survives (s : State) : Prop where
  ring : s.queue.packets = []
  frames : ∀ fd n, s.dispatched fd n = payloads readSize (s.received fd n)

end State

open State

/-- The queue agrees with what the connections have sent. -/
structure Parsed (s : State) : Prop where
  valid : s.queue.Valid
  survives : s.Survives
  pending : ∀ fd, s.queue.pending fd = leftover readSize (s.received fd (s.closed fd))
  fresh : ∀ fd n, s.closed fd < n → s.received fd n = []

namespace Parsed

variable {s : State}

theorem initial : Parsed .initial :=
  ⟨Queue.lcreate_valid, ⟨rfl, fun _ _ => (congrArg Prod.fst parse_nil).symm⟩,
    fun _ => (congrArg Prod.snd parse_nil).symm, fun _ _ _ => rfl⟩

theorem close (h : Parsed s) (fd : Int32) :
    ∃ s', s.handle (.close fd) = some s' ∧ Parsed s' := by
  have closed := Queue.lclose_receives h.valid fd
  refine ⟨_, rfl, closed.valid, ⟨by rw [closed.packets, h.survives.ring]; rfl, h.survives.frames⟩,
    fun fd' => ?_, fun fd' n after => ?_⟩
  · by_cases same : fd' = fd
    · subst same
      simp only [Function.update_self]
      rw [closed.pending, h.fresh _ _ (Nat.lt_succ_self _), leftover, parse_nil]
    · simp only [Function.update_of_ne same]
      rw [closed.others fd' same, h.pending fd']
  · by_cases same : fd' = fd
    · subst same
      simp only [Function.update_self] at after
      exact h.fresh _ n (Nat.lt_of_succ_lt after)
    · simp only [Function.update_of_ne same] at after
      exact h.fresh fd' n after

/-- A chunk is dispatched up to the handler that raises an error; the packets after it stay in the
ring. -/
theorem data (h : Parsed s) (fd : Int32) (chunk : List UInt8) (returns : Nat) :
    ∃ s', s.handle (.data fd chunk returns) = some s' ∧
      s'.queue.packets = ((s.completed fd chunk).drop (returns + 1)).map (fun msg => (fd, msg)) ∧
      (s.RaisesLast (.data fd chunk returns) → Parsed s') := by
  obtain ⟨queue, dispatched, spec⟩ :=
    Queue.dispatchData_spec h.valid h.survives.ring fd chunk returns
  have pending := h.pending fd
  have parsed : payloads readSize (s.queue.pending fd ++ chunk) = s.completed fd chunk := by
    rw [pending]
    rfl
  rw [parsed] at dispatched
  refine ⟨_, by rw [handle, dispatched]; rfl, by rw [spec.packets, parsed], fun last => ?_⟩
  have all : (s.completed fd chunk).take (returns + 1) = s.completed fd chunk :=
    List.take_of_length_le last
  refine ⟨spec.valid, ⟨?_, fun fd' n => ?_⟩, fun fd' => ?_, fun fd' n after => ?_⟩
  · show queue.packets = []
    rw [spec.packets, parsed, List.drop_eq_nil_of_le last]
    rfl
  · dsimp only
    rw [all]
    by_cases same : fd' = fd
    · subst same
      rw [Function.update_self, Framed.State.deliver, ofFd_map_same]
      by_cases own : n = s.closed fd'
      · subst own
        rw [if_pos rfl, Function.update_self, h.survives.frames, payloads_append]
        rfl
      · rw [if_neg own, Function.update_of_ne own]
        exact h.survives.frames _ n
    · rw [Framed.deliver_other same, Function.update_of_ne same]
      exact h.survives.frames fd' n
  · by_cases same : fd' = fd
    · subst same
      simp only [Function.update_self]
      rw [spec.pending, pending, ← leftover_append]
    · simp only [Function.update_of_ne same]
      rw [spec.others fd' same, h.pending fd']
  · by_cases same : fd' = fd
    · subst same
      simp only [Function.update_self, Function.update_of_ne (Nat.ne_of_gt after)]
      exact h.fresh _ n after
    · simp only [Function.update_of_ne same]
      exact h.fresh fd' n after

/-- One message: its dispatch ends, and the queue is empty after it exactly when no handler raises
an error too early. -/
theorem handle (h : Parsed s) (msg : Message) :
    ∃ s', s.handle msg = some s' ∧ (s.RaisesLast msg → Parsed s') ∧
      (s'.queue.packets = [] → s.RaisesLast msg) := by
  cases msg with
  | close fd =>
    obtain ⟨s', handled, parsed⟩ := h.close fd
    exact ⟨s', handled, fun _ => parsed, fun _ => trivial⟩
  | data fd chunk returns =>
    obtain ⟨s', handled, packets, parsed⟩ := h.data fd chunk returns
    refine ⟨s', handled, parsed, fun empty => ?_⟩
    rw [packets, List.map_eq_nil_iff] at empty
    exact List.drop_eq_nil_iff.mp empty

end Parsed

theorem handleAll_concat (msgs : List Message) (msg : Message) :
    handleAll (msgs ++ [msg]) = (handleAll msgs).bind fun s => s.handle msg := by
  simp only [handleAll, List.foldlM_append, List.foldlM_cons, List.foldlM_nil, bind_pure]
  rfl

/-- For every sequence of messages, every packet survives up to every point of it exactly when no
handler raises an error before the last packet of its chunk. -/
theorem survives_iff (msgs : List Message) :
    (∀ before, before <+: msgs → ∃ s, handleAll before = some s ∧ s.Survives) ↔
      ∀ before msg s, before ++ [msg] <+: msgs → handleAll before = some s → s.RaisesLast msg := by
  constructor
  · intro survives
    have parsed : ∀ before, before <+: msgs → ∃ s, handleAll before = some s ∧ Parsed s := by
      intro before
      induction before using List.reverseRecOn with
      | nil => exact fun _ => ⟨.initial, rfl, .initial⟩
      | append_singleton before msg ih =>
        intro reached
        obtain ⟨s, handled, parsed⟩ := ih ((List.prefix_append ..).trans reached)
        obtain ⟨s', next, step, empty⟩ := parsed.handle msg
        obtain ⟨s'', whole, survived⟩ := survives _ reached
        have same : handleAll (before ++ [msg]) = some s' := by
          rw [handleAll_concat, handled]
          exact next
        cases whole.symm.trans same
        exact ⟨s', same, step (empty survived.ring)⟩
    intro before msg s reached handled
    obtain ⟨s₀, handled₀, parsed⟩ := parsed before ((List.prefix_append ..).trans reached)
    cases handled.symm.trans handled₀
    obtain ⟨s', next, -, empty⟩ := parsed.handle msg
    obtain ⟨s'', whole, survived⟩ := survives _ reached
    rw [handleAll_concat, handled] at whole
    cases whole.symm.trans next
    exact empty survived.ring
  · intro last before reached
    have parsed : ∃ s, handleAll before = some s ∧ Parsed s := by
      induction before using List.reverseRecOn with
      | nil => exact ⟨.initial, rfl, .initial⟩
      | append_singleton before msg ih =>
        obtain ⟨s, handled, parsed⟩ := ih ((List.prefix_append ..).trans reached)
        obtain ⟨s', next, step, -⟩ := parsed.handle msg
        refine ⟨s', ?_, step (last before msg s reached handled)⟩
        rw [handleAll_concat, handled]
        exact next
    obtain ⟨s, handled, parsed⟩ := parsed
    exact ⟨s, handled, parsed.survives⟩

/-- A chunk with two packets, at the first of which the handler raises an error: the second one is
left in the queue. -/
theorem not_survives_raised : ¬ ∀ msgs : List Message, ∃ s, handleAll msgs = some s ∧ s.Survives := by
  intro claim
  obtain ⟨s, handled, survives⟩ := claim [.data 5 [0, 1, 7, 0, 1, 8] 0]
  obtain ⟨s', handled', packets, -⟩ := Parsed.initial.data 5 [0, 1, 7, 0, 1, 8] 0
  have same : handleAll [.data 5 [0, 1, 7, 0, 1, 8] 0] = some s' := by
    rw [← handled']
    exact handleAll_concat [] _
  cases handled.symm.trans same
  rw [survives.ring] at packets
  simp [completed, State.initial, payloads, leftover, parse, readSize] at packets

end Dispatch

end Starnet
