import Starnet.Socket.Event
import Starnet.Socket.Ordering

/-! Messages that `SendBuffer` accepts. `WriteFrontFromList` keeps its message when `write` is
interrupted, and `EntireWriteWhenEmpty` drops it. -/

namespace Starnet

/-- The bytes of a message that the kernel accepted. -/
def handed (calls : List WriteCall) (msg : Submission) : List (Nat × UInt8) :=
  (wire calls).filter fun byte => byte.1 == msg.seq

/-- The kernel accepted the message, or a queue holds what it did not accept. -/
def Retained (calls : List WriteCall) (wb : ConnWriteBuffer) (msg : Submission) : Prop :=
  handed calls msg = msg.octets ∨
    ∃ obj ∈ wb.objs ++ wb.low, obj.msg = msg ∧ handed calls msg = msg.octets.take obj.start

/-- No message that `SendBuffer` accepted on the connection is lost. -/
def SocketServer.RetainsSent (s : SocketServer) (fd : Int32) : Prop :=
  ∀ conn, s.conns fd = some conn →
    ∀ msg ∈ conn.sent, Retained conn.calls ((s.writeBuffers fd).getD {}) msg

/-- Some bytes are accepted, or the write is to be tried again. -/
def WriteOutcome.transient : WriteOutcome → Bool
  | .wrote n => 0 < n
  | .eagain | .eintr => true
  | .error => false

/-- The calls of `write` for the connection succeed or fail for the moment. -/
def SocketOp.TransientWrites (fd : Int32) : SocketOp → Prop
  | .sendBuffer fd' _ _ writes => fd' = fd → ∀ outcome ∈ writes, outcome.transient = true
  | .onRW fd' _ _ answers => fd' = fd → ∀ outcome ∈ answers.writes, outcome.transient = true
  | _ => True

/-- A message with bytes is accepted while nothing is queued, and its `write` is interrupted. -/
def SocketServer.InterruptsDirectWrite (fd : Int32) (s : SocketServer) : SocketOp → Prop
  | .sendBuffer fd' buff _ writes =>
    fd' = fd ∧ (s.conns fd).isSome = true ∧ (s.slot fd).wb.isClosing = false ∧
      (s.slot fd).wb.hasData = false ∧ buff ≠ [] ∧ writes.head? = some .eintr
  | _ => False

/-! ### One connection -/

theorem octets_filter (msg : Submission) (seq : Nat) :
    (msg.octets.filter fun byte => byte.1 == seq) = if msg.seq = seq then msg.octets else [] := by
  unfold Submission.octets
  split
  · rename_i same
    rw [List.filter_eq_self]
    rintro byte mem
    obtain ⟨b, -, rfl⟩ := List.mem_map.mp mem
    exact beq_iff_eq.mpr same
  · rename_i other
    rw [List.filter_eq_nil_iff]
    rintro byte mem
    obtain ⟨b, -, rfl⟩ := List.mem_map.mp mem
    simpa using other

theorem octets_take_filter (msg : Submission) (k seq : Nat) :
    ((msg.octets.take k).filter fun byte => byte.1 == seq) =
      if msg.seq = seq then msg.octets.take k else [] := by
  have part := octets_filter { msg with buff := msg.buff.take k } seq
  simpa only [Submission.octets, List.map_take] using part

/-- Only one message of a list has the number. -/
theorem flatMap_octets_filter {order : List Submission} {msg : Submission}
    (once : order.Pairwise fun m m' => m.seq ≠ m'.seq) (mem : msg ∈ order) :
    ((order.flatMap Submission.octets).filter fun byte => byte.1 == msg.seq) = msg.octets := by
  induction order with
  | nil => simp at mem
  | cons first order ih =>
    rw [List.flatMap_cons, List.filter_append, octets_filter]
    rw [List.pairwise_cons] at once
    rcases List.mem_cons.mp mem with rfl | mem
    · have none : ((order.flatMap Submission.octets).filter fun byte => byte.1 == msg.seq) = [] := by
        rw [List.filter_flatMap, List.flatMap_eq_nil_iff]
        intro m mem
        rw [octets_filter, if_neg (Ne.symm (once.1 m mem))]
      rw [none, if_pos rfl, List.append_nil]
    · rw [ih once.2 mem, if_neg (once.1 msg mem), List.nil_append]

theorem Numbered.inj {sent : List Submission} (h : Numbered sent) {msg msg' : Submission}
    (mem : msg ∈ sent) (mem' : msg' ∈ sent) (same : msg.seq = msg'.seq) : msg = msg' := by
  have nodup : (sent.map Submission.seq).Nodup := by
    rw [h]
    exact List.nodup_range
  exact List.inj_on_of_nodup_map nodup mem mem' same

namespace Held

variable {sent done : List Submission} {calls : List WriteCall} {queue : List WriteObject}

/-- The messages that are written or queued have different numbers. -/
theorem once (h : Held sent calls done queue) (numbered : Numbered sent) :
    (done ++ queue.map WriteObject.msg).Pairwise fun m m' => m.seq ≠ m'.seq := by
  refine (List.Pairwise.and_mem.mp h.sorted).imp fun {m m'} ⟨mem, mem', before⟩ same => ?_
  have eq := numbered.inj (h.submitted m mem) (h.submitted m' mem') same
  have less := before (by rw [eq])
  omega

/-- The bytes of a message that is written or queued. -/
theorem retained (h : Held sent calls done queue) (numbered : Numbered sent) {msg : Submission}
    (mem : msg ∈ done ++ queue.map WriteObject.msg) :
    handed calls msg = msg.octets ∨
      ∃ obj ∈ queue, obj.msg = msg ∧ handed calls msg = msg.octets.take obj.start := by
  have once := h.once numbered
  rw [List.pairwise_append] at once
  obtain ⟨onceDone, onceQueue, apart⟩ := once
  rw [handed, h.written, List.filter_append]
  rcases List.mem_append.mp mem with written | mem
  · have none : ((begun queue).filter fun byte => byte.1 == msg.seq) = [] := by
      cases queue with
      | nil => rfl
      | cons obj queue =>
        rw [begun, octets_take_filter, if_neg]
        exact Ne.symm (apart msg written obj.msg (List.mem_cons_self ..))
    exact Or.inl (by rw [none, List.append_nil, flatMap_octets_filter onceDone written])
  · have none : ((done.flatMap Submission.octets).filter fun byte => byte.1 == msg.seq) = [] := by
      rw [List.filter_flatMap, List.flatMap_eq_nil_iff]
      intro m written
      rw [octets_filter, if_neg (apart m written msg mem)]
    obtain ⟨obj, queued, rfl⟩ := List.mem_map.mp mem
    refine Or.inr ⟨obj, queued, rfl, ?_⟩
    rw [none, List.nil_append]
    cases queue with
    | nil => simp at queued
    | cons first queue =>
      rw [begun, octets_take_filter]
      rcases List.mem_cons.mp queued with rfl | queued
      · rw [if_pos rfl]
      · rw [List.map_cons, List.pairwise_cons] at onceQueue
        rw [if_neg (onceQueue.1 obj.msg (List.mem_map_of_mem queued)), h.fresh obj queued,
          List.take_zero]

end Held

/-! ### Whole runs -/

/-- The messages accepted on a connection are completely written or queued. -/
def Slot.Retains (a : Slot) : Prop :=
  ∀ conn, a.conn = some conn → Ordered conn.sent conn.calls a.wb ∧
    ∃ done, Held conn.sent conn.calls done (a.wb.objs ++ a.wb.low) ∧
      ∀ msg ∈ conn.sent, msg ∈ done ++ (a.wb.objs ++ a.wb.low).map WriteObject.msg

theorem Slot.Retains.turn {s : SocketServer} {fd : Int32} {op : SocketOp} {b : Slot}
    (h : (s.slot fd).Retains) (turn : (s.slot fd).Turn fd op b) (transient : op.TransientWrites fd)
    (direct : ¬ s.InterruptsDirectWrite fd op) : b.Retains := by
  intro conn managed
  cases turn with
  | gone gone buffer =>
    rw [gone] at managed
    contradiction
  | opened before after sent calls buffer =>
    cases after.symm.trans managed
    rw [sent, calls, Slot.wb, buffer]
    exact ⟨.initial, [], ⟨by simp, .nil, rfl, by simp⟩, by simp⟩
  | kept before after sent calls wb =>
    cases after.symm.trans managed
    obtain ⟨ordered, held⟩ := h _ before
    obtain ⟨isClosing, eq⟩ := wb
    rw [sent, calls, eq]
    exact ⟨ordered.congr rfl rfl, held⟩
  | @sent conn₀ _ low buff writes eq before opens after sent calls wb =>
    cases after.symm.trans managed
    obtain ⟨ordered, done, held, all⟩ := h _ before
    obtain ⟨ordered', done', held', mono, new⟩ :=
      ordered.send_held ⟨writes, conn₀.calls⟩ low buff held
    have objs : b.wb.objs = ((s.slot fd).wb.send ⟨conn₀.sent.length, low, buff⟩
        ⟨writes, conn₀.calls⟩).1.objs := by
      rw [wb, ConnWriteBuffer.warn]
      split <;> rfl
    have lows : b.wb.low = ((s.slot fd).wb.send ⟨conn₀.sent.length, low, buff⟩
        ⟨writes, conn₀.calls⟩).1.low := by
      rw [wb, ConnWriteBuffer.warn]
      split <;> rfl
    rw [sent, calls]
    refine ⟨ordered'.congr objs lows, done', by rw [objs, lows]; exact held', fun msg mem => ?_⟩
    rw [objs, lows]
    rcases List.mem_append.mp mem with mem | mem
    · exact mono msg (all msg mem)
    · rw [List.mem_singleton.mp mem]
      refine new.resolve_right fun dropped => direct ?_
      obtain ⟨empty, bytes, drops⟩ := dropped
      subst eq
      refine ⟨rfl, ?_, opens, empty, bytes, ?_⟩
      · exact Option.isSome_iff_exists.mpr ⟨conn₀, before⟩
      · cases writes with
        | nil => contradiction
        | cons outcome writes =>
          have ok := transient rfl outcome (List.mem_cons_self ..)
          cases outcome with
          | wrote n =>
            have some : 0 < n := by simpa [WriteOutcome.transient] using ok
            have none : n = 0 := by simpa [WriteOutcome.drops] using drops
            omega
          | eagain => contradiction
          | eintr => rfl
          | error => contradiction
  | @flushed conn₀ _ r answers eq before after sent calls wb =>
    cases after.symm.trans managed
    obtain ⟨ordered, done, held, all⟩ := h _ before
    obtain ⟨ordered', done', held', same⟩ :=
      ordered.flush_held ⟨answers.writes, conn₀.calls⟩ held
    rw [sent, calls, wb]
    exact ⟨ordered', done', held', fun msg mem => by rw [same]; exact all msg mem⟩

end Starnet
