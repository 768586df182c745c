import Mathlib.Data.List.Sort
import Starnet.Lib.Refinement
import Starnet.Netpack.Service
import Starnet.Socket.Retention

/-! Two nodes and one connection between them. A service of the first node sends packed messages with
either priority, the write buffer and the kernels pass the bytes on, and a service of the second node
takes packets out of the chunks that its engine reads. -/

namespace Starnet

open Transition

/-! ### The calls of `write` -/

theorem writeAll_calls (queues : List WriteObject → List WriteObject × List WriteObject)
    (lst : List WriteObject) (written : Nat) (io : WriteIo) :
    io.calls <+: (writeAll queues lst written io).2.2.calls := by
  induction lst generalizing written io with
  | nil => exact List.prefix_rfl
  | cons obj others ih =>
    rcases writeAll_cons queues obj others written io with
      ⟨answers, full⟩ | ⟨front, k, answers, -, -, -, stop⟩
    · rw [full]
      refine List.IsPrefix.trans ?_ (ih ..)
      exact List.prefix_append ..
    · rw [stop]
      exact List.prefix_append ..

namespace ConnWriteBuffer

theorem flush_calls (wb : ConnWriteBuffer) (io : WriteIo) :
    io.calls <+: (wb.flush io).2.calls := by
  obtain ⟨objs, written, io₁, first, cases⟩ := wb.flush_cases io
  have high := writeAll_calls (fun lst => (lst, wb.low)) wb.objs 0 io
  rw [first] at high
  rcases cases with ⟨-, eq⟩ | ⟨rfl, low, written', io₂, second, eq⟩
  · rw [eq]
    exact high
  · have lows := writeAll_calls (fun lst => ([], lst)) wb.low written io₁
    rw [second] at lows
    rw [eq]
    exact high.trans lows

theorem send_calls (wb : ConnWriteBuffer) (msg : Submission) (io : WriteIo) :
    io.calls <+: (wb.send msg io).2.2.calls := by
  unfold send
  split
  · obtain ⟨k, io', calls, ⟨-, eq⟩ | ⟨obj, -, -, -, eq⟩⟩ := wb.entireWriteWhenEmpty_cases msg io <;>
      rw [eq, calls] <;> exact List.prefix_append ..
  · exact List.prefix_rfl

end ConnWriteBuffer

/-- The calls of `write` for a connection that stays. -/
theorem Slot.Turn.calls {fd : Int32} {op : SocketOp} {a b : Slot} {conn conn' : Conn}
    (turn : a.Turn fd op b) (before : a.conn = some conn) (after : b.conn = some conn') :
    conn.calls <+: conn'.calls := by
  cases turn with
  | gone gone => cases gone.symm.trans after
  | opened free => cases free.symm.trans before
  | kept before' after' sent calls =>
    cases before.symm.trans before'
    cases after.symm.trans after'
    rw [calls]
  | sent low buff writes eq before' opens after' sent calls =>
    cases before.symm.trans before'
    cases after.symm.trans after'
    rw [calls]
    exact a.wb.send_calls _ ⟨writes, conn.calls⟩
  | flushed r answers eq before' after' sent calls =>
    cases before.symm.trans before'
    cases after.symm.trans after'
    rw [calls]
    exact a.wb.flush_calls ⟨answers.writes, conn.calls⟩

theorem wire_mono {calls calls' : List WriteCall} (h : calls <+: calls') :
    wire calls <+: wire calls' :=
  h.flatMap _

namespace Link

open Framing LuaNetpack

/-- The engine of the first node, and the engine and the service of the second. -/
structure State where
  sender : SocketServer
  receiver : Framed.State

inductive Op
  | send (op : SocketOp)
  | receive (op : Framed.Op)

inductive Step (me : UInt32) : State → Op → State → Prop
  | send {s : State} {op sender} (step : s.sender.Step op sender) :
      Step me s (.send op) { s with sender }
  | receive {s : State} {op receiver} (step : Framed.Step me s.receiver op receiver) :
      Step me s (.receive op) { s with receiver }

/-- Both nodes at their own pace. -/
def link (me : UInt32) : System State Op where
  init s := s = ⟨.initial, .initial⟩
  step := Step me

/-- The bytes that the kernel of the first node has accepted on descriptor `x`. -/
def written (s : SocketServer) (x : Int32) : List UInt8 :=
  (s.conns x).elim [] fun conn => (wire conn.calls).map Prod.snd

/-- The chunks of connection `n` of descriptor `y` in a queue of messages. -/
def queued (inbox : List Framed.Mail) (y : Int32) (n : Nat) : List UInt8 :=
  (inbox.filter fun mail => mail.msg.subtype = .data ∧ mail.msg.fd = y ∧ mail.conn = n).flatMap
    fun mail => mail.msg.buff

/-- The bytes that the second node has read on connection `n` of descriptor `y`. -/
def arrived (r : Framed.State) (y : Int32) (n : Nat) : List UInt8 := r.received y n ++ queued r.inbox y n

/-- A connection leads from `x` to the `n`-th one of `y`: it stays open on the first node, whose
services send packed messages on it, and the second node reads what the first one has written. Its
service handles messages as in `Framed.CleanStart`. -/
structure Joined (x y : Int32) (n : Nat) (s : State) (op : Op) (s' : State) : Prop where
  stays : (s.sender.conns x).isSome = true → (s'.sender.conns x).isSome = true
  packs : ∀ buff low writes, op = .send (.sendBuffer x buff low writes) → ∃ msg, lpack msg = .ok buff
  stream : (∃ received, op = .receive received) → arrived s'.receiver y n <+: written s'.sender x
  clean : ∀ received, op = .receive received → Framed.CleanStart s.receiver received

/-- The calls of `write` for `x` succeed or fail for the moment, and none is interrupted that writes a
message directly. -/
def Lossless (x : Int32) (s : State) : Op → Prop
  | .send op => op.TransientWrites x ∧ ¬s.sender.InterruptsDirectWrite x op
  | .receive _ => True

/-- The message in a packed one. -/
def packet (msg : Submission) : List UInt8 := msg.buff.drop 2

/-! ### Packed messages -/

theorem lpack_ok {msg buff : List UInt8} (packed : lpack msg = .ok buff) :
    msg.length < 65536 ∧ buff = frame msg := by
  by_cases short : msg.length < 65536
  · rw [lpack_eq short] at packed
    cases packed
    exact ⟨short, rfl⟩
  · rw [lpack, if_pos (by omega)] at packed
    cases packed

/-- The packets in the bytes of packed messages. -/
theorem payloads_packed {order : List Submission}
    (packed : ∀ msg ∈ order, ∃ m, lpack m = .ok msg.buff) :
    payloads readSize ((order.flatMap Submission.octets).map Prod.snd) = order.map packet := by
  have short : ∀ m ∈ order.map packet, m.length < 65536 := by
    intro m mem
    obtain ⟨msg, sent, rfl⟩ := List.mem_map.mp mem
    obtain ⟨m, ok⟩ := packed msg sent
    obtain ⟨short, eq⟩ := lpack_ok ok
    rw [packet, eq]
    exact short
  have bytes : (order.flatMap Submission.octets).map Prod.snd =
      ((order.map packet).map frame).flatten := by
    rw [List.map_flatMap, List.map_map, List.flatMap_def]
    congr 1
    refine List.map_congr_left fun msg mem => ?_
    obtain ⟨m, ok⟩ := packed msg mem
    obtain ⟨-, eq⟩ := lpack_ok ok
    rw [Submission.octets, List.map_map, Function.comp_apply, packet, eq]
    exact List.map_id _
  rw [bytes, payloads_frames short]

theorem payloads_prefix {stream stream' : List UInt8} (h : stream <+: stream') :
    payloads readSize stream <+: payloads readSize stream' := by
  obtain ⟨piece, rfl⟩ := h
  rw [payloads_append]
  exact List.prefix_append ..

/-! ### The invariant -/

variable {me : UInt32} {x y : Int32} {n : Nat} {s s' : State} {tr : List Op} {op : Op}

/-- The first node does a run of the engine. -/
theorem sender_run (run : ((link me).confine (Joined x y n)).Run s tr) :
    ∃ ops, socketServer.Run s.sender ops := by
  refine run.component State.sender (by rintro _ rfl; rfl) fun s tr op s' _ step => ?_
  obtain ⟨step, -⟩ := step
  cases step with
  | send step => exact Or.inr ⟨_, step⟩
  | receive => exact Or.inl rfl

/-- The second node does a run in which connections start clean. -/
theorem receiver_run (run : ((link me).confine (Joined x y n)).Run s tr) :
    ∃ ops, ((Framed.service me).restrict Framed.CleanStart).Run s.receiver ops := by
  refine run.component State.receiver (by rintro _ rfl; rfl) fun s tr op s' _ step => ?_
  obtain ⟨step, joined⟩ := step
  cases step with
  | send => exact Or.inl rfl
  | receive step => exact Or.inr ⟨_, step, joined.clean _ rfl⟩

/-- The second node parses what it has handled. -/
theorem parsed_of_run {r : Framed.State} {ops : List Framed.Op}
    (run : ((Framed.service me).restrict Framed.CleanStart).Run r ops) : Framed.Parsed r := by
  have inv : Framed.Told me r ∧ Framed.Parsed r := by
    refine run.stateInvariant (P := fun r => Framed.Told me r ∧ Framed.Parsed r) ?_ ?_
    · rintro _ rfl
      exact ⟨Framed.told_initial, .initial⟩
    · rintro r op r' ⟨told, parsed⟩ ⟨step, clean⟩
      cases step with
      | engine step serves =>
        exact ⟨told.step step serves,
          parsed.valid, parsed.ring, parsed.frames, parsed.pending, parsed.fresh⟩
      | handle queued handles =>
        exact ⟨told.handle queued handles, parsed.handle told queued clean handles⟩
  exact inv.2

/-- What is read has been written, and what is sent is packed. -/
structure Streams (x y : Int32) (n : Nat) (s : State) : Prop where
  stream : arrived s.receiver y n <+: written s.sender x
  packed : ∀ conn, s.sender.conns x = some conn → ∀ msg ∈ conn.sent, ∃ m, lpack m = .ok msg.buff

theorem Streams.send (h : Streams x y n s) {op : SocketOp} {sender : SocketServer}
    (managed : (s.sender.slot x).Managed) (step : s.sender.Step op sender)
    (joined : Joined x y n s (.send op) { s with sender }) : Streams x y n { s with sender } := by
  have turns := SocketServer.step_turns step managed
  refine ⟨h.stream.trans ?_, fun conn' after => ?_⟩
  · cases before : s.sender.conns x with
    | none =>
      rw [written, before]
      exact List.nil_prefix
    | some conn =>
      obtain ⟨conn', after⟩ := Option.isSome_iff_exists.mp (joined.stays (by rw [before]; rfl))
      dsimp only at after ⊢
      rw [written, written, before, after]
      refine (wire_mono ?_).map _
      rcases turns with same | ⟨-, turn⟩
      · cases before.symm.trans ((congrArg Slot.conn same).symm.trans after)
        exact List.prefix_rfl
      · exact turn.calls before after
  · dsimp only at after
    rcases turns with same | ⟨-, turn⟩
    · exact h.packed conn' ((congrArg Slot.conn same).symm.trans after)
    · cases turn with
      | gone gone => cases gone.symm.trans after
      | opened before after' sent =>
        cases after.symm.trans after'
        rw [sent]
        exact nofun
      | kept before after' sent =>
        cases after.symm.trans after'
        rw [sent]
        exact h.packed _ before
      | sent low buff writes eq before opens after' sent =>
        cases after.symm.trans after'
        rw [sent]
        intro msg mem
        rcases List.mem_append.mp mem with mem | mem
        · exact h.packed _ before msg mem
        · rw [List.mem_singleton.mp mem]
          exact joined.packs buff low writes (by rw [eq])
      | flushed r answers eq before after' sent =>
        cases after.symm.trans after'
        rw [sent]
        exact h.packed _ before

theorem Streams.run (run : ((link me).confine (Joined x y n)).Run s tr) : Streams x y n s := by
  refine run.invariant (P := fun s _ => Streams x y n s) ?_ ?_
  · rintro _ rfl
    exact ⟨List.prefix_rfl, nofun⟩
  · rintro s tr op s' run h ⟨step, joined⟩
    cases step with
    | send step =>
      obtain ⟨ops, sends⟩ := sender_run run
      exact h.send (SocketServer.managed_of_run sends x) step joined
    | receive step => exact ⟨joined.stream ⟨_, rfl⟩, h.packed⟩

/-- The packets are those of the bytes that the kernel of the first node has accepted. -/
theorem Streams.dispatched (h : Streams x y n s) (parsed : Framed.Parsed s.receiver)
    {order : List Submission} (packed : ∀ msg ∈ order, ∃ m, lpack m = .ok msg.buff)
    (wrote : written s.sender x <+: (order.flatMap Submission.octets).map Prod.snd) :
    s.receiver.dispatched y n <+: order.map packet := by
  have handled : s.receiver.received y n <+: arrived s.receiver y n := List.prefix_append ..
  have frames := payloads_prefix (handled.trans (h.stream.trans wrote))
  rwa [payloads_packed packed, ← parsed.frames y n] at frames

/-- Messages of one priority that are written are in the order in which they were sent. -/
theorem order_sublist {sent order : List Submission} {calls : List WriteCall} {low : Bool}
    (numbered : Numbered sent) (as : WrittenAs sent calls order) (one : ∀ msg ∈ sent, msg.low = low) :
    order.Sublist sent := by
  have asymm : Std.Antisymm fun msg msg' : Submission => msg.seq < msg'.seq :=
    ⟨fun _ _ less more => absurd more (Nat.lt_asymm less)⟩
  have sorted : order.Pairwise fun msg msg' => msg.seq < msg'.seq := by
    cases low with
    | false =>
      have all : (order.filter fun msg => !msg.low) = order :=
        List.filter_eq_self.mpr fun msg mem => by rw [one msg (as.submitted msg mem)]; rfl
      exact all ▸ as.high
    | true =>
      have all : (order.filter fun msg => msg.low) = order :=
        List.filter_eq_self.mpr fun msg mem => one msg (as.submitted msg mem)
      exact all ▸ as.low
  have increasing : sent.Pairwise fun msg msg' => msg.seq < msg'.seq := by
    rw [← List.pairwise_map (f := Submission.seq) (R := (· < ·)), numbered]
    exact List.pairwise_lt_range
  exact List.sublist_of_subperm_of_pairwise (List.subperm_of_subset as.once as.submitted) sorted
    increasing

/-- The packets in the order of the messages on the wire. -/
theorem Streams.in_order (h : Streams x y n s) (parsed : Framed.Parsed s.receiver) {conn : Conn}
    (up : s.sender.conns x = some conn)
    (ordered : Ordered conn.sent conn.calls (s.sender.slot x).wb) :
    ∃ order, WrittenAs conn.sent conn.calls order ∧
      s.receiver.dispatched y n <+: order.map packet ∧
      ∀ low, (∀ msg ∈ conn.sent, msg.low = low) →
        (s.receiver.dispatched y n).Sublist (conn.sent.map packet) := by
  obtain ⟨done, held⟩ := ordered.held
  obtain ⟨order, as⟩ := held.writtenAs
  have dispatched : s.receiver.dispatched y n <+: order.map packet := by
    refine h.dispatched parsed (fun msg mem => h.packed conn up msg (as.submitted msg mem)) ?_
    rw [written, up]
    exact as.last.map _
  exact ⟨order, as, dispatched, fun low one =>
    dispatched.sublist.trans ((order_sublist ordered.numbered as one).map packet)⟩

/-- No message that the sender has accepted is lost. -/
theorem retains_of_run {ops : List SocketOp} {engine : SocketServer}
    (run : (socketServer.restrict fun s op =>
      op.TransientWrites x ∧ ¬s.InterruptsDirectWrite x op).Run engine ops) :
    (engine.slot x).Retains := by
  refine run.invariant (P := fun s _ => (s.slot x).Retains) ?_ ?_
  · rintro _ rfl
    simp [Slot.Retains, SocketServer.initial]
  · rintro s tr op s' run retains ⟨step, transient, direct⟩
    have managed := SocketServer.managed_of_run run.of_restrict x
    rcases SocketServer.step_turns step managed with same | ⟨-, turn⟩
    · rw [same]
      exact retains
    · exact retains.turn turn transient direct

/-- When nothing is queued, the messages that are sent are on the wire, each once. -/
theorem written_perm {sent done : List Submission} {calls : List WriteCall}
    (held : Held sent calls done []) (numbered : Numbered sent) (all : ∀ msg ∈ sent, msg ∈ done) :
    done.Perm sent := by
  have once : done.Nodup := by
    have sorted := held.sorted
    rw [List.map_nil, List.append_nil] at sorted
    exact sorted.imp fun before same => absurd (before (by rw [same])) (by simp [same])
  have distinct : sent.Nodup := by
    refine List.Nodup.of_map Submission.seq ?_
    rw [numbered]
    exact List.nodup_range
  refine (List.perm_ext_iff_of_nodup once distinct).mpr fun msg => ⟨fun mem => ?_, all msg⟩
  exact held.submitted msg (List.mem_append_left _ mem)

/-! ### Whole runs -/

theorem joined_send {op : SocketOp} {sender : SocketServer}
    (stays : (s.sender.conns x).isSome = true → (sender.conns x).isSome = true)
    (packs : ∀ buff low writes, op = .sendBuffer x buff low writes → ∃ msg, lpack msg = .ok buff) :
    Joined x y n s (.send op) { s with sender } :=
  ⟨stays, fun buff low writes eq => packs buff low writes (by cases eq; rfl),
    by rintro ⟨_, ⟨⟩⟩, by rintro _ ⟨⟩⟩

theorem joined_receive {op : Framed.Op} {receiver : Framed.State}
    (stream : arrived receiver y n <+: written s.sender x)
    (clean : Framed.CleanStart s.receiver op) : Joined x y n s (.receive op) { s with receiver } :=
  ⟨id, by rintro _ _ _ ⟨⟩, fun _ => stream, by rintro _ ⟨⟩; exact clean⟩

theorem cleanStart_accept {r : Framed.State} {mail : Framed.Mail} {rest : List Framed.Mail}
    {returns : Nat} (queued : r.inbox = mail :: rest) (subtype : mail.msg.subtype = .accept)
    (clean : (r.queue.findUncomplete mail.msg.fd).1 = none) :
    Framed.CleanStart r (.handle returns) := by
  intro mail' rest' queued'
  cases queued.symm.trans queued'
  rw [subtype]
  exact clean

theorem cleanStart_data {r : Framed.State} {mail : Framed.Mail} {rest : List Framed.Mail}
    {returns : Nat} {bytes : List UInt8} (queued : r.inbox = mail :: rest)
    (subtype : mail.msg.subtype = .data) (kept : r.cut mail.msg.fd mail.conn = false)
    (pending : r.queue.pending mail.msg.fd ++ mail.msg.buff = bytes)
    (few : (payloads readSize bytes).length ≤ returns + 1) :
    Framed.CleanStart r (.handle returns) := by
  intro mail' rest' queued'
  cases queued.symm.trans queued'
  rw [subtype]
  exact ⟨kept, pending ▸ few⟩

/-- A high and a low message are sent from descriptor 4, the first one in two parts, and arrive at
descriptor 5 in three chunks. -/
theorem exists_run_two : ∃ (s : State) (tr : List Op) (conn : Conn),
    ((link 9).confine fun s op s' => Joined 4 5 1 s op s' ∧ Lossless 4 s op).Run s tr ∧
      s.sender.conns 4 = some conn ∧ conn.sent = [⟨0, false, [0, 1, 7]⟩, ⟨1, true, [0, 1, 8]⟩] ∧
      (s.sender.slot 4).wb.hasData = false ∧ arrived s.receiver 5 1 = written s.sender 4 ∧
      queued s.receiver.inbox 5 1 = [] := by
  let C : State → Op → State → Prop := fun s op s' => Joined 4 5 1 s op s' ∧ Lossless 4 s op
  have h0 : ((link 9).confine C).Run ⟨.initial, .initial⟩ [] := .init rfl
  have h1 := h0.step (a := Op.send (.connect 4 2 (some [])))
    ⟨.send (.connect rfl), joined_send (fun _ => rfl) (by rintro _ _ _ ⟨⟩), trivial, id⟩
  have h2 := h1.step (a := Op.receive (.engine (.listen 3 9)))
    ⟨.receive (.engine (.listen rfl) trivial), joined_receive ⟨_, rfl⟩ trivial, trivial⟩
  have h3 := h2.step (a := Op.receive (.engine (.accept 3 5)))
    ⟨.receive (.engine (.accept rfl rfl rfl) trivial), joined_receive ⟨_, rfl⟩ trivial, trivial⟩
  have h4 := h3.step (a := Op.receive (.handle 0))
    ⟨.receive (.handle rfl rfl), joined_receive ⟨_, rfl⟩ (cleanStart_accept rfl rfl rfl), trivial⟩
  have h5 := h4.step (a := Op.send (.sendBuffer 4 [0, 1, 7] false [.wrote 2]))
    ⟨.send (.sendBuffer ..), joined_send (fun _ => rfl) (by rintro _ _ _ ⟨⟩; exact ⟨[7], rfl⟩),
      by simp [SocketOp.TransientWrites, WriteOutcome.transient],
      by simp [SocketServer.InterruptsDirectWrite]⟩
  have h6 := h5.step (a := Op.send (.sendBuffer 4 [0, 1, 8] true []))
    ⟨.send (.sendBuffer ..), joined_send (fun _ => rfl) (by rintro _ _ _ ⟨⟩; exact ⟨[8], rfl⟩),
      by simp [SocketOp.TransientWrites], by rintro ⟨-, -, -, -, -, ⟨⟩⟩⟩
  have h7 := h6.step (a := Op.receive (.engine (.onRW 5 true false { reads := [.data [0]] })))
    ⟨.receive (.engine (.onRW rfl (by rintro ⟨⟩)) trivial), joined_receive ⟨_, rfl⟩ trivial,
      trivial⟩
  have h8 := h7.step (a := Op.receive (.handle 0))
    ⟨.receive (.handle rfl rfl), joined_receive ⟨_, rfl⟩
      (cleanStart_data rfl rfl rfl (show _ = [0] from rfl) (by simp [payloads])), trivial⟩
  have h9 := h8.step (a := Op.send (.onRW 4 false true { writes := [.wrote 1, .wrote 3] }))
    ⟨.send (.onRW rfl (by rintro ⟨⟩)), joined_send (fun _ => rfl) (by rintro _ _ _ ⟨⟩),
      by simp [SocketOp.TransientWrites, WriteOutcome.transient],
      by simp [SocketServer.InterruptsDirectWrite]⟩
  have h10 := h9.step (a := Op.receive (.engine (.onRW 5 true false { reads := [.data [1, 7]] })))
    ⟨.receive (.engine (.onRW rfl (by rintro ⟨⟩)) trivial), joined_receive ⟨_, rfl⟩ trivial,
      trivial⟩
  have h11 := h10.step (a := Op.receive (.handle 0))
    ⟨.receive (.handle rfl rfl), joined_receive ⟨_, rfl⟩
      (cleanStart_data rfl rfl rfl (show _ = [0, 1, 7] from rfl)
        (by simp [payloads, parse, readSize])), trivial⟩
  have h12 := h11.step
    (a := Op.receive (.engine (.onRW 5 true false { reads := [.data [0, 1, 8]] })))
    ⟨.receive (.engine (.onRW rfl (by rintro ⟨⟩)) trivial), joined_receive ⟨[], rfl⟩ trivial,
      trivial⟩
  have h13 := h12.step (a := Op.receive (.handle 0))
    ⟨.receive (.handle rfl rfl), joined_receive ⟨[], rfl⟩
      (cleanStart_data rfl rfl rfl (show _ = [0, 1, 8] from rfl)
        (by simp [payloads, parse, readSize])), trivial⟩
  exact ⟨_, _, _, h13, rfl, rfl, rfl, rfl, rfl⟩

end Link

end Starnet
