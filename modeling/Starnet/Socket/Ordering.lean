import Starnet.Socket.Slot
import Mathlib.Data.List.Range
import Mathlib.Data.List.Infix

/-! The order of the bytes of a connection. The messages that are completely written and those in
the two queues form one list, of which only the first queued one may be partly written. -/

namespace Starnet

/-- Messages of one priority are in the order of their numbers. -/
def Submission.Before (msg msg' : Submission) : Prop := msg.low = msg'.low → msg.seq < msg'.seq

/-- A low message is written while a high one is queued only when it was raised to the front of the
high queue. -/
def WriteCall.InTurn (call : WriteCall) : Prop :=
  call.msg.low = true → (∃ obj ∈ call.objs ++ call.low, obj.msg.low = false) →
    call.objs.head?.map WriteObject.msg = some call.msg

/-- The bytes that the kernel accepted are the messages of `order`, whole ones except the last. No
message occurs twice, and those of one priority occur in the order of their submission. -/
structure WrittenAs (sent : List Submission) (calls : List WriteCall) (order : List Submission) :
    Prop where
  submitted : ∀ msg ∈ order, msg ∈ sent
  whole : order.dropLast.flatMap Submission.octets <+: wire calls
  last : wire calls <+: order.flatMap Submission.octets
  once : order.Nodup
  high : (order.filter fun msg => !msg.low).Pairwise fun msg msg' => msg.seq < msg'.seq
  low : (order.filter fun msg => msg.low).Pairwise fun msg msg' => msg.seq < msg'.seq

/-- The numbers of the messages are those of their submission. -/
def Numbered (sent : List Submission) : Prop := sent.map Submission.seq = List.range sent.length

/-- The part of the first queued message that is written. -/
def begun : List WriteObject → List (Nat × UInt8)
  | [] => []
  | obj :: _ => obj.msg.octets.take obj.start

/-- `done` are the messages that are completely written and `queue` the ones that are held. -/
structure Held (sent : List Submission) (calls : List WriteCall) (done : List Submission)
    (queue : List WriteObject) : Prop where
  submitted : ∀ msg ∈ done ++ queue.map WriteObject.msg, msg ∈ sent
  sorted : (done ++ queue.map WriteObject.msg).Pairwise Submission.Before
  written : wire calls = done.flatMap Submission.octets ++ begun queue
  fresh : ∀ obj ∈ queue.tail, obj.start = 0

/-- What holds of the messages, the calls of `write` and the buffer of a connection. -/
structure Ordered (sent : List Submission) (calls : List WriteCall) (wb : ConnWriteBuffer) :
    Prop where
  numbered : Numbered sent
  held : ∃ done, Held sent calls done (wb.objs ++ wb.low)
  low : ∀ obj ∈ wb.low, obj.msg.low = true ∧ obj.start = 0
  high : ∀ obj ∈ wb.objs.tail, obj.msg.low = false
  turns : ∀ call ∈ calls, call.InTurn

/-! ### The wire -/

theorem wire_append (calls : List WriteCall) (call : WriteCall) :
    wire (calls ++ [call]) =
      wire calls ++ call.accepted.map fun byte => (call.msg.seq, byte) := by
  simp [wire]

theorem octets_take (obj : WriteObject) (k : Nat) :
    obj.msg.octets.take (obj.start + k) =
      obj.msg.octets.take obj.start ++ (obj.rest.take k).map fun byte => (obj.msg.seq, byte) := by
  simp only [List.take_add, Submission.octets, WriteObject.rest, List.map_take, List.map_drop]

theorem octets_rest (obj : WriteObject) :
    obj.msg.octets =
      obj.msg.octets.take obj.start ++ obj.rest.map fun byte => (obj.msg.seq, byte) := by
  conv_lhs => rw [← List.take_append_drop obj.start obj.msg.octets]
  rw [Submission.octets, ← List.map_drop]
  rfl

theorem begun_append (front : List WriteObject) {back : List WriteObject} (h : ∀ obj ∈ back, obj.start = 0) :
    begun (front ++ back) = begun front := by
  cases front with
  | nil =>
    cases back with
    | nil => rfl
    | cons obj back => simp [begun, h obj (List.mem_cons_self ..)]
  | cons obj front => rfl

theorem Numbered.seq_lt {sent : List Submission} (h : Numbered sent) {msg : Submission}
    (mem : msg ∈ sent) : msg.seq < sent.length := by
  have seq : msg.seq ∈ sent.map Submission.seq := List.mem_map_of_mem mem
  rw [h] at seq
  exact List.mem_range.mp seq

theorem Numbered.append {sent : List Submission} (h : Numbered sent) (low : Bool)
    (buff : List UInt8) : Numbered (sent ++ [⟨sent.length, low, buff⟩]) := by
  rw [Numbered, List.map_append, h, List.length_append, List.length_singleton, List.range_succ]
  rfl

namespace Held

variable {sent done : List Submission} {calls : List WriteCall} {queue front back : List WriteObject}
  {obj : WriteObject} {msg : Submission} {queues : List WriteObject × List WriteObject}

/-- The front of the queue is written completely. -/
theorem finish (h : Held sent calls done (obj :: queue)) :
    Held sent (calls ++ [writeCall obj.msg obj.rest obj.rest.length queues])
      (done ++ [obj.msg]) queue := by
  constructor
  · simpa using h.submitted
  · simpa using h.sorted
  · have next : begun queue = [] := begun_append [] h.fresh
    rw [wire_append, h.written, List.flatMap_append, List.flatMap_singleton, next, List.append_nil,
      List.append_assoc]
    conv_rhs => rw [octets_rest obj]
    rw [begun, writeCall, List.take_length]
  · exact fun obj mem => h.fresh obj (List.mem_of_mem_tail mem)

/-- Some bytes of the front of the queue are written. -/
theorem advance (h : Held sent calls done (obj :: queue)) {obj' : WriteObject} {k : Nat}
    (same : obj'.msg = obj.msg) (start : obj'.start = obj.start + k) :
    Held sent (calls ++ [writeCall obj.msg obj.rest k queues]) done (obj' :: queue) := by
  constructor
  · simpa [same] using h.submitted
  · simpa [same] using h.sorted
  · rw [wire_append, h.written, begun, begun, same, start, octets_take, List.append_assoc]
    rfl
  · exact h.fresh

theorem submit (h : Held sent calls done queue) (msg : Submission) :
    Held (sent ++ [msg]) calls done queue :=
  ⟨fun m mem => List.mem_append_left _ (h.submitted m mem), h.sorted, h.written, h.fresh⟩

/-- A message of which nothing is written is queued before messages of the other priority. -/
theorem enqueue (front back : List WriteObject) (h : Held sent calls done (front ++ back))
    (numbered : Numbered sent) (seq : msg.seq = sent.length)
    (other : ∀ obj ∈ back, obj.msg.low ≠ msg.low)
    (fresh : ∀ obj ∈ back, obj.start = 0) :
    Held (sent ++ [msg]) calls done (front ++ WriteObject.whole msg :: back) := by
  have newest : ∀ m ∈ sent, m.Before msg := fun m mem _ => seq ▸ numbered.seq_lt mem
  constructor
  · intro m mem
    simp only [List.map_append, List.map_cons, List.mem_append, List.mem_cons] at mem
    have old := h.submitted m
    simp only [List.map_append, List.mem_append] at old
    rcases mem with mem | mem | rfl | mem
    · exact List.mem_append_left _ (old (Or.inl mem))
    · exact List.mem_append_left _ (old (Or.inr (Or.inl mem)))
    · exact List.mem_append_right _ (List.mem_singleton_self _)
    · exact List.mem_append_left _ (old (Or.inr (Or.inr mem)))
  · have sorted := h.sorted
    have submitted := h.submitted
    rw [List.map_append, ← List.append_assoc] at sorted submitted ⊢
    rw [List.map_cons, List.pairwise_append, List.pairwise_cons]
    rw [List.pairwise_append] at sorted
    refine ⟨sorted.1, ⟨fun m mem same => ?_, sorted.2.1⟩, fun m mem m' mem' => ?_⟩
    · obtain ⟨obj, held, rfl⟩ := List.mem_map.mp mem
      exact absurd same.symm (other obj held)
    · rcases List.mem_cons.mp mem' with rfl | mem'
      · exact newest m (submitted m (List.mem_append_left _ mem))
      · exact sorted.2.2 m mem m' mem'
  · have old := h.written
    rw [begun_append front fresh] at old
    rw [begun_append front, old]
    simpa [WriteObject.whole] using fresh
  · intro obj mem
    cases front with
    | nil => exact fresh obj mem
    | cons first front =>
      have old := h.fresh obj
      simp only [List.cons_append, List.tail_cons, List.mem_append, List.mem_cons] at mem old
      rcases mem with mem | rfl | mem
      · exact old (Or.inl mem)
      · rfl
      · exact fresh obj mem

/-- A call of `write` that accepts nothing. -/
theorem refuse (h : Held sent calls done queue) (s : List UInt8) :
    Held sent (calls ++ [writeCall msg s 0 queues]) done queue := by
  refine ⟨h.submitted, h.sorted, ?_, h.fresh⟩
  rw [wire_append, h.written, writeCall, List.take_zero, List.map_nil, List.append_nil]

end Held

theorem tail_suffix_tail {α : Type} {l l' : List α} (h : l <:+ l') : l.tail <:+ l'.tail := by
  obtain ⟨t, rfl⟩ := h
  cases t with
  | nil => exact List.suffix_refl _
  | cons a t => exact (List.tail_suffix l).trans (List.suffix_append t l)

/-- The loop of `OnWriteable` over one queue: what it leaves is a last part of the queue, up to the
bytes written of its front, and each call is for the front of such a part. -/
theorem writeAll_held {sent : List Submission} (later : List WriteObject)
    (queues : List WriteObject → List WriteObject × List WriteObject) :
    ∀ (lst : List WriteObject) {written : Nat} {io : WriteIo} {done : List Submission}
      {lst' : List WriteObject} {written' : Nat} {io' : WriteIo},
      writeAll queues lst written io = (lst', written', io') →
      Held sent io.calls done (lst ++ later) → (∀ call ∈ io.calls, call.InTurn) →
      (∀ obj others k, obj :: others <:+ lst →
        (writeCall obj.msg obj.rest k (queues (obj :: others))).InTurn) →
      (∃ done', Held sent io'.calls done' (lst' ++ later) ∧
          done' ++ (lst' ++ later).map WriteObject.msg =
            done ++ (lst ++ later).map WriteObject.msg) ∧
        lst'.map WriteObject.msg <:+ lst.map WriteObject.msg ∧ ∀ call ∈ io'.calls, call.InTurn
  | [], _, _, done, _, _, _, eq, h, turns, _ => by
    obtain ⟨rfl, rfl, rfl⟩ := by simpa only [writeAll, Prod.mk.injEq] using eq
    exact ⟨⟨done, h, rfl⟩, List.suffix_refl _, turns⟩
  | obj :: others, written, io, done, _, _, _, eq, h, turns, turn => by
    have called : ∀ k, ∀ call ∈ io.calls ++ [writeCall obj.msg obj.rest k (queues (obj :: others))],
        call.InTurn := by
      intro k call mem
      rcases List.mem_append.mp mem with mem | mem
      · exact turns call mem
      · rw [List.mem_singleton.mp mem]
        exact turn obj others k (List.suffix_refl _)
    rcases writeAll_cons queues obj others written io with
      ⟨answers, full⟩ | ⟨front, k, answers, msg, start, -, stop⟩
    · rw [full] at eq
      obtain ⟨⟨done', held, same⟩, suffix, turns'⟩ := writeAll_held later queues others eq h.finish
        (called _) fun obj' others' k sub => turn obj' others' k (sub.trans (List.suffix_cons _ _))
      refine ⟨⟨done', held, ?_⟩, suffix.trans (List.suffix_cons _ _), turns'⟩
      rw [same, List.append_assoc]
      rfl
    · rw [stop] at eq
      obtain ⟨rfl, rfl, rfl⟩ := by simpa only [Prod.mk.injEq] using eq
      exact ⟨⟨done, h.advance msg start, by simp [msg]⟩, by simp [msg], called k⟩

namespace Ordered

variable {sent : List Submission} {calls : List WriteCall} {wb wb' : ConnWriteBuffer}

theorem initial : Ordered [] [] {} := by
  constructor
  · rfl
  · exact ⟨[], by simp, .nil, rfl, by simp⟩
  · simp
  · simp
  · simp

/-- The invariant depends on the queues only. -/
theorem congr (h : Ordered sent calls wb) (objs : wb'.objs = wb.objs) (low : wb'.low = wb.low) :
    Ordered sent calls wb' := by
  constructor
  · exact h.numbered
  · rw [objs, low]
    exact h.held
  · rw [low]
    exact h.low
  · rw [objs]
    exact h.high
  · exact h.turns

/-- A flush moves messages from the queues to those that are completely written. -/
theorem flush_held (io : WriteIo) (h : Ordered sent io.calls wb) {done : List Submission}
    (held : Held sent io.calls done (wb.objs ++ wb.low)) :
    Ordered sent (wb.flush io).2.calls (wb.flush io).1 ∧
      ∃ done', Held sent (wb.flush io).2.calls done' ((wb.flush io).1.objs ++ (wb.flush io).1.low) ∧
        done' ++ ((wb.flush io).1.objs ++ (wb.flush io).1.low).map WriteObject.msg =
          done ++ (wb.objs ++ wb.low).map WriteObject.msg := by
  obtain ⟨objs, written, io₁, first, cases⟩ := wb.flush_cases io
  obtain ⟨⟨done₁, heldHigh, same⟩, suffix, turns⟩ :=
    writeAll_held wb.low _ _ first held h.turns fun _ _ _ _ _ _ => rfl
  rcases cases with ⟨-, eq⟩ | ⟨rfl, low, written', io₂, second, eq⟩
  · rw [eq]
    refine ⟨⟨h.numbered, ⟨done₁, heldHigh⟩, h.low, fun obj mem => ?_, turns⟩, done₁, heldHigh, same⟩
    have sub := (tail_suffix_tail suffix).subset
    rw [← List.map_tail, ← List.map_tail] at sub
    obtain ⟨obj', mem', same⟩ := List.mem_map.mp (sub (List.mem_map_of_mem mem))
    rw [← same]
    exact h.high obj' mem'
  · rw [eq]
    have quiet : ∀ obj others k, obj :: others <:+ wb.low →
        (writeCall obj.msg obj.rest k (([] : List WriteObject), obj :: others)).InTurn := by
      rintro obj others k sub - ⟨high, mem, notLow⟩
      rw [(h.low high (sub.subset mem)).1] at notLow
      contradiction
    obtain ⟨⟨done₂, heldLow, sameLow⟩, suffixLow, turnsLow⟩ := writeAll_held [] _ _ second
      (by simpa using heldHigh) turns quiet
    rw [List.append_nil] at heldLow
    have raised : low.take 1 ++ low.tail = low := by
      rw [← List.drop_one, List.take_append_drop]
    have held' : Held sent io₂.calls done₂ (low.take 1 ++ low.tail) := by rwa [raised]
    refine ⟨⟨h.numbered, ⟨done₂, held'⟩, fun obj mem => ⟨?_, heldLow.fresh obj mem⟩, ?_, turnsLow⟩,
      done₂, held', ?_⟩
    · obtain ⟨obj', mem', same⟩ := List.mem_map.mp
        (suffixLow.subset (List.mem_map_of_mem (List.mem_of_mem_tail mem)))
      rw [← same]
      exact (h.low obj' mem').1
    · cases low with
      | nil => simp
      | cons obj low => simp
    · rw [← same, raised]
      simpa using sameLow

theorem flush (io : WriteIo) (h : Ordered sent io.calls wb) :
    Ordered sent (wb.flush io).2.calls (wb.flush io).1 := by
  obtain ⟨done, held⟩ := h.held
  exact (h.flush_held io held).1

/-- A message for a buffer that is not empty goes to the end of its queue. -/
theorem entireWriteWhenNotEmpty_held (h : Ordered sent calls wb) (low : Bool) (buff : List UInt8)
    {done : List Submission} (held : Held sent calls done (wb.objs ++ wb.low)) :
    let msg : Submission := ⟨sent.length, low, buff⟩
    let wb' := wb.entireWriteWhenNotEmpty msg
    Ordered (sent ++ [msg]) calls wb' ∧ Held (sent ++ [msg]) calls done (wb'.objs ++ wb'.low) ∧
      ∀ m, m ∈ (wb'.objs ++ wb'.low).map WriteObject.msg ↔
        m ∈ (wb.objs ++ wb.low).map WriteObject.msg ∨ m = msg := by
  have numbered := h.numbered.append low buff
  intro msg
  unfold ConnWriteBuffer.entireWriteWhenNotEmpty
  split
  · next isLow =>
    have queued : Held (sent ++ [msg]) calls done
        (wb.objs ++ (wb.low ++ [WriteObject.whole msg])) := by
      have queued : Held (sent ++ [msg]) calls done
          (wb.objs ++ wb.low ++ [WriteObject.whole msg]) :=
        Held.enqueue _ [] (by rwa [List.append_nil]) h.numbered rfl (by simp) (by simp)
      rwa [List.append_assoc] at queued
    refine ⟨⟨numbered, ⟨done, queued⟩, ?_, h.high, h.turns⟩, queued, fun m => ?_⟩
    · intro obj mem
      rcases List.mem_append.mp mem with mem | mem
      · exact h.low obj mem
      · rw [List.mem_singleton.mp mem]
        exact ⟨isLow, rfl⟩
    · simp only [List.map_append, List.mem_append, List.map_singleton, List.mem_singleton,
        WriteObject.whole, or_assoc]
  · next isHigh =>
    have queued : Held (sent ++ [msg]) calls done
        (wb.objs ++ [WriteObject.whole msg] ++ wb.low) := by
      rw [List.append_assoc]
      refine Held.enqueue _ _ held h.numbered rfl (fun obj mem => ?_) fun obj mem => (h.low obj mem).2
      rw [(h.low obj mem).1]
      exact Ne.symm isHigh
    refine ⟨⟨numbered, ⟨done, queued⟩, h.low, ?_, h.turns⟩, queued, fun m => ?_⟩
    · intro obj mem
      cases front : wb.objs with
      | nil => simp [front] at mem
      | cons first objs =>
        have old := h.high
        rw [front] at mem old
        rcases List.mem_append.mp mem with mem | mem
        · exact old obj mem
        · rw [List.mem_singleton.mp mem]
          exact Bool.eq_false_iff.mpr isHigh
    · simp only [List.map_append, List.mem_append, List.map_singleton, List.mem_singleton,
        WriteObject.whole]
      tauto

/-- A message for an empty buffer is written, dropped, or queued as far as it is not written. -/
theorem entireWriteWhenEmpty_held (io : WriteIo) (h : Ordered sent io.calls wb) (low : Bool)
    (buff : List UInt8) {done : List Submission} (held : Held sent io.calls done [])
    (objs : wb.objs = []) (lows : wb.low = []) :
    let msg : Submission := ⟨sent.length, low, buff⟩
    let sends := wb.entireWriteWhenEmpty msg io
    Ordered (sent ++ [msg]) sends.2.2.calls sends.1 ∧
      ∃ done', Held (sent ++ [msg]) sends.2.2.calls done' (sends.1.objs ++ sends.1.low) ∧
        (∀ m ∈ done, m ∈ done' ++ (sends.1.objs ++ sends.1.low).map WriteObject.msg) ∧
        (msg ∈ done' ++ (sends.1.objs ++ sends.1.low).map WriteObject.msg ∨
          buff ≠ [] ∧ (io.answers.headD .eagain).drops = true) := by
  have numbered := h.numbered.append low buff
  intro msg
  obtain ⟨k, io', called, cases⟩ := wb.entireWriteWhenEmpty_cases msg io
  have turns : ∀ call ∈ io'.calls, call.InTurn := by
    intro call mem
    rw [called] at mem
    rcases List.mem_append.mp mem with mem | mem
    · exact h.turns call mem
    · rw [List.mem_singleton.mp mem]
      rintro - ⟨obj, mem, -⟩
      simp [writeCall, objs, lows] at mem
  rcases cases with ⟨stop, eq⟩ | ⟨obj, same, start, -, eq⟩
  · rw [eq]
    by_cases full : k = msg.buff.length
    · have written : Held (sent ++ [msg]) io'.calls (done ++ [msg]) (wb.objs ++ wb.low) := by
        rw [objs, lows, called, full]
        exact (Held.enqueue [] [] held h.numbered rfl (by simp) (by simp)).finish
      refine ⟨⟨numbered, ⟨_, written⟩, h.low, h.high, turns⟩, _, written, ?_, Or.inl (by simp)⟩
      exact fun m mem => List.mem_append_left _ (List.mem_append_left _ mem)
    · obtain ⟨none, drops⟩ := stop.resolve_left full
      have refused : Held (sent ++ [msg]) io'.calls done (wb.objs ++ wb.low) := by
        rw [objs, lows, called, none]
        exact (held.submit msg).refuse msg.buff
      refine ⟨⟨numbered, ⟨done, refused⟩, h.low, h.high, turns⟩, done, refused, ?_,
        Or.inr ⟨fun bytes => full ?_, drops⟩⟩
      · exact fun m mem => List.mem_append_left _ mem
      · rw [none, show msg.buff = [] from bytes, List.length_nil]
  · rw [eq]
    have queued : Held (sent ++ [msg]) io'.calls done (wb.objs ++ [obj] ++ wb.low) := by
      rw [objs, lows, called]
      exact (Held.enqueue [] [] held h.numbered rfl (by simp) (by simp)).advance
        same (by simpa [WriteObject.whole] using start)
    refine ⟨⟨numbered, ⟨done, queued⟩, h.low, by simp [objs], turns⟩, done, queued, ?_, ?_⟩
    · exact fun m mem => List.mem_append_left _ mem
    · exact Or.inl (by simp [same])

/-- `SendBuffer` adds its message to those that are written or queued, unless it is dropped. -/
theorem send_held (io : WriteIo) (h : Ordered sent io.calls wb) (low : Bool) (buff : List UInt8)
    {done : List Submission} (held : Held sent io.calls done (wb.objs ++ wb.low)) :
    let msg : Submission := ⟨sent.length, low, buff⟩
    let wb' := (wb.send msg io).1
    Ordered (sent ++ [msg]) (wb.send msg io).2.2.calls wb' ∧
      ∃ done', Held (sent ++ [msg]) (wb.send msg io).2.2.calls done' (wb'.objs ++ wb'.low) ∧
        (∀ m ∈ done ++ (wb.objs ++ wb.low).map WriteObject.msg,
          m ∈ done' ++ (wb'.objs ++ wb'.low).map WriteObject.msg) ∧
        (msg ∈ done' ++ (wb'.objs ++ wb'.low).map WriteObject.msg ∨
          wb.hasData = false ∧ buff ≠ [] ∧ (io.answers.headD .eagain).drops = true) := by
  intro msg
  unfold ConnWriteBuffer.send
  split
  · next empty =>
    obtain ⟨objs, lows⟩ : wb.objs = [] ∧ wb.low = [] := by simpa using empty
    rw [objs, lows] at held
    obtain ⟨ordered, done', held', kept, added⟩ :=
      h.entireWriteWhenEmpty_held io low buff held objs lows
    refine ⟨ordered, done', held', fun m mem => kept m ?_, added.imp_right fun dropped => ?_⟩
    · simpa [objs, lows] using mem
    · exact ⟨by simp [ConnWriteBuffer.hasData, objs, lows], dropped⟩
  · obtain ⟨ordered, held', queued⟩ := h.entireWriteWhenNotEmpty_held low buff held
    refine ⟨ordered, done, held', fun m mem => ?_, Or.inl ?_⟩
    · rcases List.mem_append.mp mem with mem | mem
      · exact List.mem_append_left _ mem
      · exact List.mem_append_right _ ((queued m).mpr (Or.inl mem))
    · exact List.mem_append_right _ ((queued msg).mpr (Or.inr rfl))

theorem send (io : WriteIo) (h : Ordered sent io.calls wb) (low : Bool) (buff : List UInt8) :
    Ordered (sent ++ [⟨sent.length, low, buff⟩]) (wb.send ⟨sent.length, low, buff⟩ io).2.2.calls
      (wb.send ⟨sent.length, low, buff⟩ io).1 := by
  obtain ⟨done, held⟩ := h.held
  exact (h.send_held io low buff held).1

end Ordered

/-! ### Whole runs -/

theorem Held.writtenAs {sent done : List Submission} {calls : List WriteCall}
    {queue : List WriteObject} (h : Held sent calls done queue) :
    ∃ order, WrittenAs sent calls order := by
  have written : ∀ order : List Submission, order <+: done ++ queue.map WriteObject.msg →
      order.dropLast.flatMap Submission.octets <+: wire calls →
      wire calls <+: order.flatMap Submission.octets → WrittenAs sent calls order := by
    intro order sub whole last
    have sorted : order.Pairwise Submission.Before := h.sorted.sublist sub.sublist
    constructor
    · exact fun msg mem => h.submitted msg (sub.subset mem)
    · exact whole
    · exact last
    · exact sorted.imp fun before same => absurd (before (by rw [same])) (by simp [same])
    · exact List.pairwise_filter.mpr (sorted.imp fun before first second =>
        before ((Bool.not_inj ((first.trans second.symm)))))
    · exact List.pairwise_filter.mpr (sorted.imp fun before first second =>
        before (first.trans second.symm))
  have wire := h.written
  cases queue with
  | nil =>
    refine ⟨done, written done (List.prefix_append ..) ?_ ?_⟩
    · rw [wire, begun, List.append_nil]
      exact (List.dropLast_prefix done).flatMap _
    · rw [wire, begun, List.append_nil]
  | cons obj queue =>
    refine ⟨done ++ [obj.msg], written _ ?_ ?_ ?_⟩
    · rw [List.map_cons]
      exact ⟨queue.map WriteObject.msg, by simp⟩
    · rw [List.dropLast_concat, wire]
      exact List.prefix_append ..
    · rw [wire, List.flatMap_append, List.flatMap_singleton]
      exact (List.prefix_append_right_inj _).mpr (List.take_prefix ..)

/-- The invariant of a slot. -/
def Slot.InOrder (a : Slot) : Prop := ∀ conn, a.conn = some conn → Ordered conn.sent conn.calls a.wb

theorem Slot.InOrder.step {P : Slot → Prop} {a b : Slot} (managed : a.Managed) (h : a.InOrder)
    (step : Slot.Step P a b) : b.InOrder := by
  cases step with
  | stay => exact h
  | openFd free k => exact h
  | manage conn k free sent calls events =>
    rintro conn ⟨⟩
    rw [sent, calls, Slot.wb, managed.buffered free]
    exact .initial
  | drop conn buffer =>
    intro c managed
    rw [conn] at managed
    contradiction
  | @send conn wb arm io low buff writes managed sends =>
    rintro _ ⟨⟩
    have sent := (h conn managed).send ⟨writes, conn.calls⟩ low buff
    rw [sends] at sent
    exact sent.congr (by simp [Slot.wb, ConnWriteBuffer.warn]; split <;> rfl)
      (by simp [Slot.wb, ConnWriteBuffer.warn]; split <;> rfl)
  | @flush conn wb io socket writes managed flushes kept drained =>
    rintro _ ⟨⟩
    have flushed := (h conn managed).flush ⟨writes, conn.calls⟩
    rw [flushes] at flushed
    exact flushed
  | @read conn readSize readBuffCap managed =>
    rintro _ ⟨⟩
    exact h conn managed
  | @pause conn paused managed =>
    rintro _ ⟨⟩
    exact h conn managed
  | @close wb buffer =>
    intro conn managed
    have old := h conn managed
    rw [Slot.wb, buffer] at old
    exact old.congr rfl rfl
  | @finish conn managed connecting drained =>
    rintro _ ⟨⟩
    exact h conn managed

theorem inOrder_of_run {s : SocketServer} {tr : List SocketOp} (run : socketServer.Run s tr)
    (fd : Int32) : (s.slot fd).InOrder := by
  have inv : ∀ fd, (s.slot fd).Managed ∧ (s.slot fd).InOrder := by
    refine run.stateInvariant (P := fun s => ∀ fd, (s.slot fd).Managed ∧ (s.slot fd).InOrder) ?_ ?_
    · rintro _ rfl fd
      exact ⟨Slot.Managed.initial, by simp [Slot.InOrder, SocketServer.initial]⟩
    · intro s op s' before step
      exact SocketServer.step_slots (P := fun _ => True) step
        (fun a b managed inv step => inv.step managed step) (fun _ => trivial) before
  exact (inv fd).2

/-- In every run, the bytes that the kernel accepted on a managed connection are whole messages in
the order of their priority class, except for the last one, and each call of `write` is in turn. -/
theorem writes_in_order {s : SocketServer} {tr : List SocketOp} (run : socketServer.Run s tr)
    {fd : Int32} {conn : Conn} (managed : s.conns fd = some conn) :
    (∃ order, WrittenAs conn.sent conn.calls order) ∧ ∀ call ∈ conn.calls, call.InTurn := by
  have ordered := inOrder_of_run run fd conn managed
  obtain ⟨done, held⟩ := ordered.held
  exact ⟨held.writtenAs, ordered.turns⟩

/-- A high message is written in two parts, and a low one that is submitted meanwhile after it. -/
theorem writes_in_order_two_parts :
    let s₁ := SocketServer.initial.connect 5 7 (some [])
    let s₂ := (s₁.sendBuffer 5 [1, 2, 3] false [.wrote 1]).2
    let s₃ := (s₂.sendBuffer 5 [4] true []).2
    let s₄ := s₃.onRW 5 false true { writes := [.wrote 2, .wrote 1] }
    ∃ conn, s₄.conns 5 = some conn ∧ wire conn.calls = [(0, 1), (0, 2), (0, 3), (1, 4)] ∧
      (∃ order, WrittenAs conn.sent conn.calls order) ∧ ∀ call ∈ conn.calls, call.InTurn := by
  intro s₁ s₂ s₃ s₄
  have step₁ : SocketServer.Step .initial (.connect 5 7 (some [])) s₁ := .connect rfl
  have step₂ : s₁.Step (.sendBuffer 5 [1, 2, 3] false [.wrote 1]) s₂ := .sendBuffer ..
  have step₃ : s₂.Step (.sendBuffer 5 [4] true []) s₃ := .sendBuffer ..
  have step₄ : s₃.Step (.onRW 5 false true { writes := [.wrote 2, .wrote 1] }) s₄ :=
    .onRW (show s₃.conns 5 = some ((s₃.conns 5).get rfl) from rfl) (by decide)
  have run₀ : socketServer.Run SocketServer.initial [] := .init rfl
  have run₄ := (((run₀.step step₁).step step₂).step step₃).step step₄
  have managed : s₄.conns 5 = some ((s₄.conns 5).get rfl) := rfl
  exact ⟨_, managed, by decide, writes_in_order run₄ managed⟩

end Starnet
