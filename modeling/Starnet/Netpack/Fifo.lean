import Mathlib.Data.List.ReduceOption
import Starnet.Netpack.Queue

/-! The ring of complete packets as a FIFO queue. `expand_queue` gets `q->cap * 2`, a product of C
ints, so the ring cannot grow from `2 ^ 30` slots. -/

namespace Starnet.LuaNetpack

/-- A packet in the queue: its connection and its bytes. -/
abbrev Packet := Int32 × List UInt8

/-- The operations on the ring. -/
inductive QueueOp
  | push (fd : Int32) (data : List UInt8)
  | pop

/-! ### A FIFO queue -/

/-- The result of one operation and the packets that wait after it. -/
def fifoStep (waiting : List Packet) : QueueOp → Option Packet × List Packet
  | .push fd data => (none, waiting ++ [(fd, data)])
  | .pop => (waiting.head?, waiting.tail)

/-- The results of the operations and the packets that wait after them. -/
def fifo : (waiting : List Packet) → List QueueOp → List (Option Packet) × List Packet
  | waiting, [] => ([], waiting)
  | waiting, op :: ops =>
    let first := fifoStep waiting op
    let rest := fifo first.2 ops
    (first.1 :: rest.1, rest.2)

/-- The packets that the operations push. -/
def pushed : List QueueOp → List Packet
  | [] => []
  | .push fd data :: ops => (fd, data) :: pushed ops
  | .pop :: ops => pushed ops

/-- A push finds fewer than `limit` packets. -/
def HasRoom (limit : Nat) (waiting : List Packet) : QueueOp → Prop
  | .push _ _ => waiting.length < limit
  | .pop => True

/-- No packet is pushed while `limit` packets wait. -/
def NeverAt (limit : Nat) : List Packet → List QueueOp → Prop
  | _, [] => True
  | waiting, op :: ops => HasRoom limit waiting op ∧ NeverAt limit (fifoStep waiting op).2 ops

/-- What has been popped, and after it what still waits, is what has been pushed. -/
theorem fifo_conservation (ops : List QueueOp) (waiting : List Packet) :
    (fifo waiting ops).1.reduceOption ++ (fifo waiting ops).2 = waiting ++ pushed ops := by
  induction ops generalizing waiting with
  | nil => simp [fifo, pushed]
  | cons op ops ih =>
    cases op with
    | push fd data =>
      have rest := ih (waiting ++ [(fd, data)])
      simp only [fifo, fifoStep, pushed, List.reduceOption_cons_of_none]
      rw [rest, List.append_assoc, List.singleton_append]
    | pop =>
      simp only [fifo, fifoStep, pushed]
      cases waiting with
      | nil => exact ih []
      | cons packet rest =>
        rw [List.head?_cons, List.reduceOption_cons_of_some, List.cons_append]
        exact congrArg (packet :: ·) (ih rest)

theorem neverAt_prefix {limit : Nat} {done ops : List QueueOp} {waiting : List Packet}
    (pre : done <+: ops) (never : NeverAt limit waiting ops) : NeverAt limit waiting done := by
  induction done generalizing ops waiting with
  | nil => trivial
  | cons op done ih =>
    obtain ⟨rest, rfl⟩ := pre
    exact ⟨never.1, ih (List.prefix_append done rest) never.2⟩

/-- A queue that gets one packet too many. -/
theorem not_neverAt_replicate {limit : Nat} (n : Nat) (waiting : List Packet) (packet : Packet)
    (full : waiting.length + n = limit) :
    ¬ NeverAt limit waiting (List.replicate (n + 1) (.push packet.1 packet.2)) := by
  induction n generalizing waiting with
  | zero =>
    intro never
    have room : waiting.length < limit := never.1
    omega
  | succ n ih =>
    intro never
    have longer : (waiting ++ [packet]).length + n = limit := by
      rw [List.length_append, List.length_singleton]
      omega
    exact ih (waiting ++ [packet]) longer never.2

/-! ### The ring -/

namespace Queue

/-- `lclear`. -/
def lclear (q : Queue) : Queue := { q with hash := fun _ => [], head := 0, tail := 0 }

/-- The slot behind the last packet is the one that stays empty. -/
def Full (q : Queue) : Prop :=
  (if q.tail + 1 ≥ q.cap then q.tail + 1 - q.cap else q.tail + 1) = q.head

instance (q : Queue) : Decidable q.Full := inferInstanceAs (Decidable (_ = _))

/-- `push_data`, where `q->cap * 2` is a product of ints. It is `none` when the product overflows. -/
def pushInt (q : Queue) (fd : Int32) (data : List UInt8) : Option Queue :=
  if q.Full ∧ 2 ^ 31 ≤ q.cap * 2 then none else some (q.pushData fd data data.length)

/-- One operation: its result, and the queue after it. -/
def exec (q : Queue) : QueueOp → Option (Option Packet × Queue)
  | .push fd data => (q.pushInt fd data).map fun q' => (none, q')
  | .pop =>
    match q.lpop with
    | some (packet, q') => some (some packet, q')
    | none => some (none, q)

def run (q : Queue) : List QueueOp → Option (List (Option Packet) × Queue)
  | [] => some ([], q)
  | op :: ops => (q.exec op).bind fun first =>
    (first.2.run ops).map fun rest => (first.1 :: rest.1, rest.2)

/-- The queues that `lcreate` and the operations give. `lfilter` and `lclose` write to the hash
table besides. -/
inductive Reachable : Queue → Prop
  | created : Reachable lcreate
  | exec {q q' : Queue} {op : QueueOp} {out : Option Packet} (reach : Reachable q)
      (next : q.exec op = some (out, q')) : Reachable q'
  | hash {q : Queue} (reach : Reachable q) (hash : Fin hashSize → List Uncomplete) :
      Reachable { q with hash }
  | cleared {q : Queue} (reach : Reachable q) : Reachable q.lclear

/-- A queue that was created or emptied just now. -/
def Emptied (q : Queue) : Prop := q = lcreate ∨ ∃ q', Reachable q' ∧ q = q'.lclear

/-- After each of the operations, the results and the packets are those of a FIFO queue, what has
been popped and what waits is what has been pushed, and the indices lie inside the array. -/
def IsFifo (q : Queue) (ops : List QueueOp) : Prop :=
  ∀ done, done <+: ops → ∃ popped q', q.run done = some (popped, q') ∧
    popped = (fifo [] done).1 ∧ q'.packets = (fifo [] done).2 ∧
    popped.reduceOption ++ q'.packets = pushed done ∧ q'.InBounds

/-- The array has doubled some times, and `cap` is an int. -/
structure Sized (q : Queue) : Prop extends InBounds q where
  doubled : ∃ k ≤ 20, q.cap = queueSize * 2 ^ k

variable {q : Queue}

theorem full_iff (h : q.InBounds) : q.Full ↔ q.packets.length + 1 = q.cap := by
  unfold Full
  rw [advance_eq h.tail, packets, List.length_map]
  exact (Ring.length_content_succ_eq_iff _ h.head h.tail).symm

theorem Sized.lcreate : Sized lcreate :=
  ⟨⟨by decide, by decide⟩, 0, by decide, rfl⟩

theorem Sized.lclear (sized : Sized q) : Sized q.lclear := by
  have pos : 0 < q.cap := Nat.zero_lt_of_lt sized.head
  exact ⟨⟨pos, pos⟩, sized.doubled⟩

theorem Sized.length_lt (sized : Sized q) : q.packets.length < q.cap := by
  rw [packets, List.length_map]
  exact Ring.length_content_lt _ sized.head sized.tail

/-- The product overflows exactly when the largest ring is full. -/
theorem Sized.overflows_iff (sized : Sized q) :
    q.Full ∧ 2 ^ 31 ≤ q.cap * 2 ↔ 2 ^ 30 - 1 ≤ q.packets.length := by
  obtain ⟨k, le, cap⟩ := sized.doubled
  have largest : q.cap ≤ 2 ^ 30 := by
    rw [cap]
    exact Nat.mul_le_mul_left queueSize (Nat.pow_le_pow_right (by decide) le)
  have room := sized.length_lt
  rw [full_iff sized.toInBounds]
  omega

theorem pushData_cap (fd : Int32) (data : List UInt8) (size : Nat) :
    (q.pushData fd data size).cap = if q.Full then q.cap * 2 else q.cap := by
  have grown : (q.pushData fd data size).cap =
      (if q.Full then q.expandQueue (q.cap * 2) else q).cap := rfl
  rw [grown]
  split
  · exact expandQueue_cap _
  · rfl

theorem Sized.pushInt (sized : Sized q) {q' : Queue} {fd : Int32} {data : List UInt8}
    (push : q.pushInt fd data = some q') :
    Sized q' ∧ q'.packets = q.packets ++ [(fd, data)] ∧ q.packets.length < 2 ^ 30 - 1 := by
  unfold Queue.pushInt at push
  split at push
  · cases push
  · rename_i fits
    obtain rfl := Option.some.inj push
    obtain ⟨bounds, appended, -⟩ := pushData_spec sized.toInBounds fd data data.length
    rw [List.take_length] at appended
    refine ⟨⟨bounds, ?_⟩, appended, Nat.lt_of_not_le (mt sized.overflows_iff.mpr fits)⟩
    obtain ⟨k, le, cap⟩ := sized.doubled
    rw [pushData_cap]
    by_cases full : q.Full
    · have small : q.cap * 2 < 2 ^ 31 := Nat.lt_of_not_le fun large => fits ⟨full, large⟩
      rw [if_pos full]
      refine ⟨k + 1, ?_, by rw [cap, pow_succ, Nat.mul_assoc]⟩
      by_contra beyond
      obtain rfl : k = 20 := by omega
      rw [cap] at small
      exact absurd small (by decide)
    · rw [if_neg full]
      exact ⟨k, le, cap⟩

/-- An operation with a result is the operation of a FIFO queue. -/
theorem Sized.exec (sized : Sized q) {q' : Queue} {op : QueueOp} {out : Option Packet}
    (next : q.exec op = some (out, q')) :
    Sized q' ∧ fifoStep q.packets op = (out, q'.packets) ∧ HasRoom (2 ^ 30 - 1) q.packets op := by
  cases op with
  | push fd data =>
    obtain ⟨q'', push, eq⟩ := Option.map_eq_some_iff.mp next
    cases eq
    obtain ⟨sized', appended, room⟩ := sized.pushInt push
    refine ⟨sized', ?_, room⟩
    rw [appended]
    rfl
  | pop =>
    have spec := lpop_spec sized.toInBounds
    simp only [Queue.exec] at next
    cases popped : q.lpop with
    | none =>
      rw [popped] at spec next
      cases next
      have empty : q.packets = [] := spec
      refine ⟨sized, ?_, trivial⟩
      rw [empty]
      rfl
    | some result =>
      rw [popped] at spec next
      cases next
      obtain ⟨front, bounds, -, cap⟩ := spec
      refine ⟨⟨bounds, cap ▸ sized.doubled⟩, ?_, trivial⟩
      rw [front]
      rfl

theorem Sized.exists_exec (sized : Sized q) {op : QueueOp}
    (room : HasRoom (2 ^ 30 - 1) q.packets op) : ∃ out q', q.exec op = some (out, q') := by
  cases op with
  | push fd data =>
    have fits : ¬(q.Full ∧ 2 ^ 31 ≤ q.cap * 2) := mt sized.overflows_iff.mp (Nat.not_le.mpr room)
    rw [Queue.exec, Queue.pushInt, if_neg fits]
    exact ⟨none, _, rfl⟩
  | pop =>
    rw [Queue.exec]
    split
    · exact ⟨_, _, rfl⟩
    · exact ⟨_, _, rfl⟩

theorem Reachable.sized (reach : Reachable q) : Sized q := by
  induction reach with
  | created => exact .lcreate
  | exec _ next ih => exact (ih.exec next).1
  | hash _ hash ih => exact ⟨⟨ih.head, ih.tail⟩, ih.doubled⟩
  | cleared _ ih => exact ih.lclear

theorem Emptied.spec (empty : Emptied q) : Sized q ∧ q.packets = [] := by
  rcases empty with rfl | ⟨q', reach, rfl⟩
  · exact ⟨.lcreate, rfl⟩
  · exact ⟨reach.sized.lclear, rfl⟩

/-! ### Runs -/

/-- A run with a result is a run of a FIFO queue that is never at the limit. -/
theorem Sized.run (sized : Sized q) {ops : List QueueOp} {popped : List (Option Packet)}
    {q' : Queue} (run : q.run ops = some (popped, q')) :
    Sized q' ∧ fifo q.packets ops = (popped, q'.packets) ∧
      NeverAt (2 ^ 30 - 1) q.packets ops := by
  induction ops generalizing q popped with
  | nil =>
    cases run
    exact ⟨sized, rfl, trivial⟩
  | cons op ops ih =>
    obtain ⟨⟨out, q₁⟩, next, later⟩ := Option.bind_eq_some_iff.mp run
    obtain ⟨⟨outs, q₂⟩, run₁, eq⟩ := Option.map_eq_some_iff.mp later
    cases eq
    obtain ⟨sized₁, step, room⟩ := sized.exec next
    obtain ⟨sized₂, rest, never⟩ := ih sized₁ run₁
    refine ⟨sized₂, ?_, room, ?_⟩
    · simp only [fifo, step, rest]
    · rw [step]
      exact never

/-- A run has a result as long as the queue is never at the limit. -/
theorem Sized.exists_run (sized : Sized q) {ops : List QueueOp}
    (never : NeverAt (2 ^ 30 - 1) q.packets ops) : ∃ popped q', q.run ops = some (popped, q') := by
  induction ops generalizing q with
  | nil => exact ⟨[], q, rfl⟩
  | cons op ops ih =>
    obtain ⟨out, q₁, next⟩ := sized.exists_exec never.1
    obtain ⟨sized₁, step, -⟩ := sized.exec next
    have later : NeverAt (2 ^ 30 - 1) q₁.packets ops := by
      have after := never.2
      rw [step] at after
      exact after
    obtain ⟨outs, q₂, rest⟩ := ih sized₁ later
    refine ⟨out :: outs, q₂, ?_⟩
    rw [Queue.run, next, Option.bind_some, rest]
    rfl

theorem neverAt_of_isFifo (empty : Emptied q) {ops : List QueueOp} (isFifo : IsFifo q ops) :
    NeverAt (2 ^ 30 - 1) [] ops := by
  obtain ⟨sized, none⟩ := empty.spec
  obtain ⟨popped, q', run, -⟩ := isFifo ops (List.prefix_refl ops)
  obtain ⟨-, -, never⟩ := sized.run run
  rwa [none] at never

/-- The ring is a FIFO queue exactly as long as no packet is pushed while `2 ^ 30 - 1` wait. -/
theorem isFifo_iff (empty : Emptied q) (ops : List QueueOp) :
    IsFifo q ops ↔ NeverAt (2 ^ 30 - 1) [] ops := by
  constructor
  · exact neverAt_of_isFifo empty
  · intro never done pre
    obtain ⟨sized, none⟩ := empty.spec
    have until' : NeverAt (2 ^ 30 - 1) q.packets done := none ▸ neverAt_prefix pre never
    obtain ⟨popped, q', run⟩ := sized.exists_run until'
    obtain ⟨sized', same, -⟩ := sized.run run
    have conservation := fifo_conservation done []
    rw [none] at same
    rw [same] at conservation
    exact ⟨popped, q', run, by rw [same], by rw [same], conservation, sized'.toInBounds⟩

/-- A queue that has been emptied. -/
theorem isFifo_iff_cleared : IsFifo lcreate.lclear [.push 3 [7], .pop] ↔
    NeverAt (2 ^ 30 - 1) [] [.push 3 [7], .pop] :=
  isFifo_iff (Or.inr ⟨lcreate, .created, rfl⟩) _

/-- `2 ^ 30` packets are pushed before one is popped. -/
theorem not_isFifo_pushes : ¬∀ (q : Queue), Emptied q → ∀ ops, IsFifo q ops := by
  intro all
  have never := neverAt_of_isFifo (Or.inl rfl)
    (all lcreate (Or.inl rfl) (List.replicate (2 ^ 30 - 1 + 1) (.push 0 [])))
  exact not_neverAt_replicate (2 ^ 30 - 1) [] (0, []) rfl never

end Queue

end Starnet.LuaNetpack
