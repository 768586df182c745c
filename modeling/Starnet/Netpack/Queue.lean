import Mathlib.Algebra.Order.Ring.Nat
import Mathlib.Data.Fin.Basic
import Starnet.Lib.Framing
import Starnet.Lib.Ring

/-! The parser queue of `lua-netpack.cpp`: a hash table of the packets that connections have not
completed, and a ring of complete packets that grows when it is full. Sizes are C ints that hold
lengths of chunks and packets, so they are natural numbers here. -/

namespace Starnet.LuaNetpack

/-- `struct netpack`. -/
structure Netpack where
  id : Int32 := 0
  size : Nat := 0
  buffer : List UInt8 := []
  deriving DecidableEq, Repr

/-- `struct uncomplete` without the link. `buffer` holds the bytes written to `pack.buffer` so far,
and `read` is `-1` while only the byte `header` of the length is known. -/
structure Uncomplete where
  id : Int32 := 0
  size : Nat := 0
  buffer : List UInt8 := []
  read : Int := 0
  header : UInt8 := 0
  deriving DecidableEq, Repr

/-- `HASHSIZE`. -/
def hashSize : Nat := 4096

/-- `QUEUESIZE`. -/
def queueSize : Nat := 1024

/-- `struct queue`: the chains of the hash table, and the array as a function of the index. -/
structure Queue where
  cap : Nat
  head : Nat
  tail : Nat
  hash : Fin hashSize → List Uncomplete
  queue : Nat → Netpack

theorem hashSize_ne_zero : hashSize ≠ 0 := by decide

instance : NeZero hashSize := ⟨hashSize_ne_zero⟩

/-- `hash_fd`. -/
def hashFd (fd : Int32) : Fin hashSize :=
  Fin.ofNat hashSize ((fd >>> 24) + (fd >>> 12) + fd).toUInt32.toNat

/-- `read_size`. -/
def readSize (hi lo : UInt8) : Nat := hi.toNat <<< 8 ||| lo.toNat

namespace Queue

/-- `lcreate`. -/
def lcreate : Queue where
  cap := queueSize
  head := 0
  tail := 0
  hash _ := []
  queue _ := {}

/-- A new chain for the slot of `fd`. -/
def setChain (q : Queue) (fd : Int32) (chain : List Uncomplete) : Queue :=
  { q with hash := Function.update q.hash (hashFd fd) chain }

/-- `find_uncomplete`: the entry of `fd`, which is taken out of its chain. -/
def findUncomplete (q : Queue) (fd : Int32) : Option Uncomplete × Queue :=
  match (q.hash (hashFd fd)).find? (·.id = fd) with
  | none => (none, q)
  | some uc => (some uc, q.setChain fd ((q.hash (hashFd fd)).eraseP (·.id = fd)))

/-- Puts an entry of `fd` in front of its chain. -/
def link (q : Queue) (fd : Int32) (uc : Uncomplete) : Queue :=
  q.setChain fd (uc :: q.hash (hashFd fd))

/-- `save_uncomplete` and the assignments of its caller to the fields of the new entry. -/
def saveUncomplete (q : Queue) (fd : Int32) (fields : Uncomplete → Uncomplete) : Queue :=
  q.link fd (fields { id := fd })

/-- `expand_queue`: the elements move to the front of a new array of `sz` slots. -/
def expandQueue (q : Queue) (sz : Nat) : Queue :=
  if q.tail < q.head then
    let n := q.cap - q.head
    { q with
      queue := fun i =>
        if i < n then q.queue (q.head + i)
        else if i < n + (q.tail + 1) then q.queue (i - n) else {}
      tail := n + q.tail
      head := 0
      cap := sz }
  else
    { q with
      queue := fun i => if i < q.tail - q.head then q.queue (q.head + i) else {}
      tail := q.tail - q.head
      head := 0
      cap := sz }

/-- `push_data`, which every caller lets copy the buffer. -/
def pushData (q : Queue) (fd : Int32) (buffer : List UInt8) (size : Nat) : Queue :=
  let next := if q.tail + 1 ≥ q.cap then q.tail + 1 - q.cap else q.tail + 1
  let q := if next = q.head then q.expandQueue (q.cap * 2) else q
  { q with
    queue := Function.update q.queue q.tail { id := fd, size, buffer := buffer.take size }
    tail := if q.tail + 1 ≥ q.cap then q.tail + 1 - q.cap else q.tail + 1 }

/-- `lpop`: the front packet, if there is one. -/
def lpop (q : Queue) : Option ((Int32 × List UInt8) × Queue) :=
  if q.head = q.tail then none
  else
    let np := q.queue q.head
    some ((np.id, np.buffer.take np.size),
      { q with head := if q.head + 1 ≥ q.cap then 0 else q.head + 1 })

end Queue

theorem Queue.setChain_hash_same (q : Queue) {fd : Int32} {h : Fin hashSize} (chain : List Uncomplete)
    (same : h = hashFd fd) : (q.setChain fd chain).hash h = chain := by
  subst same
  exact Function.update_self ..

theorem Queue.setChain_hash_other (q : Queue) {fd : Int32} {h : Fin hashSize}
    (chain : List Uncomplete) (ne : h ≠ hashFd fd) : (q.setChain fd chain).hash h = q.hash h :=
  Function.update_of_ne ne ..

/-! ### The ring -/

namespace Queue

variable {q : Queue} {fd : Int32}

/-- The complete packets in the ring, the front first. -/
def packets (q : Queue) : List (Int32 × List UInt8) :=
  (Ring.content q.queue q.cap q.head q.tail).map fun np => (np.id, np.buffer.take np.size)

/-- The indices lie inside the array. -/
structure InBounds (q : Queue) : Prop where
  head : q.head < q.cap
  tail : q.tail < q.cap

theorem advance_eq {cap i : Nat} (h : i < cap) :
    (if i + 1 ≥ cap then i + 1 - cap else i + 1) = Ring.next cap i := by
  unfold Ring.next
  split <;> split <;> omega

/-- `expand_queue` on a full ring keeps its elements and leaves room. -/
theorem expandQueue_content (h : q.InBounds) (sz : Nat) :
    Ring.content (q.expandQueue sz).queue sz 0 (q.expandQueue sz).tail =
      Ring.content q.queue q.cap q.head q.tail := by
  have inside := h.head
  unfold expandQueue Ring.content
  by_cases wrapped : q.tail < q.head
  · rw [if_pos wrapped, if_pos (Nat.zero_le _), if_neg (by omega),
      Ring.slice_append _ (Nat.zero_le (q.cap - q.head)) (Nat.le_add_right _ _)]
    have old : q.head + (q.cap - q.head) = q.cap := by omega
    have front := Ring.slice_move (a := (q.expandQueue sz).queue) (b := q.queue) (i := 0)
      (j := q.head) (n := q.cap - q.head) fun k hk => by simp [expandQueue, wrapped, hk]
    have back := Ring.slice_move (a := (q.expandQueue sz).queue) (b := q.queue)
      (i := q.cap - q.head) (j := 0) (n := q.tail) fun k hk => by
        simp [expandQueue, wrapped, show k < q.tail + 1 by omega]
    rw [old, Nat.zero_add] at front
    rw [Nat.zero_add] at back
    rw [← front, ← back]
    simp only [expandQueue, if_pos wrapped]
  · rw [if_neg wrapped, if_pos (Nat.zero_le _), if_pos (by omega)]
    have moved := Ring.slice_move (a := (q.expandQueue sz).queue) (b := q.queue) (i := 0)
      (j := q.head) (n := q.tail - q.head) fun k hk => by simp [expandQueue, wrapped, hk]
    rw [show q.head + (q.tail - q.head) = q.tail by omega, Nat.zero_add] at moved
    rw [← moved]
    simp only [expandQueue, if_neg wrapped]

@[simp] theorem expandQueue_head (sz : Nat) : (q.expandQueue sz).head = 0 := by
  unfold expandQueue
  split <;> rfl

@[simp] theorem expandQueue_cap (sz : Nat) : (q.expandQueue sz).cap = sz := by
  unfold expandQueue
  split <;> rfl

@[simp] theorem expandQueue_hash (sz : Nat) : (q.expandQueue sz).hash = q.hash := by
  unfold expandQueue
  split <;> rfl

theorem expandQueue_tail (h : q.InBounds) (sz : Nat) : (q.expandQueue sz).tail < q.cap := by
  have inside := h.head
  have inside' := h.tail
  unfold expandQueue
  split
  · dsimp only; omega
  · dsimp only; omega

/-- The queue on which `push_data` writes: the ring has a free slot behind the last packet. -/
theorem room (h : q.InBounds) :
    let q' := if Ring.next q.cap q.tail = q.head then q.expandQueue (q.cap * 2) else q
    q'.InBounds ∧ Ring.next q'.cap q'.tail ≠ q'.head ∧ q'.packets = q.packets ∧
      q'.hash = q.hash := by
  have inside := h.head
  intro q'
  by_cases full : Ring.next q.cap q.tail = q.head
  · have eq : q' = q.expandQueue (q.cap * 2) := if_pos full
    have bound := expandQueue_tail h (q.cap * 2)
    rw [eq]
    refine ⟨⟨?_, ?_⟩, ?_, ?_, expandQueue_hash _⟩
    · rw [expandQueue_head, expandQueue_cap]
      omega
    · rw [expandQueue_cap]
      omega
    · rw [expandQueue_head, expandQueue_cap, Ring.next, if_pos (by omega)]
      omega
    · rw [packets, packets, expandQueue_cap, expandQueue_head, expandQueue_content h]
  · have eq : q' = q := if_neg full
    rw [eq]
    exact ⟨h, full, rfl, rfl⟩

/-- `push_data` appends one packet and never drops one. -/
theorem pushData_spec (h : q.InBounds) (fd : Int32) (buffer : List UInt8) (size : Nat) :
    (q.pushData fd buffer size).InBounds ∧
      (q.pushData fd buffer size).packets = q.packets ++ [(fd, buffer.take size)] ∧
      (q.pushData fd buffer size).hash = q.hash := by
  obtain ⟨bounds, free, same, hash⟩ := room h
  unfold pushData
  simp only [advance_eq h.tail]
  generalize (if Ring.next q.cap q.tail = q.head then q.expandQueue (q.cap * 2) else q) = q' at *
  simp only [advance_eq bounds.tail]
  refine ⟨⟨bounds.head, Ring.next_lt bounds.tail⟩, ?_, hash⟩
  rw [← same]
  simp only [packets]
  rw [Ring.content_push _ bounds.head bounds.tail free, List.map_append]
  simp [List.take_take]

/-- `lpop` takes the front packet. -/
theorem lpop_spec (h : q.InBounds) :
    match q.lpop with
    | none => q.packets = []
    | some (packet, q') => q.packets = packet :: q'.packets ∧ q'.InBounds ∧ q'.hash = q.hash ∧
        q'.cap = q.cap := by
  unfold lpop
  by_cases empty : q.head = q.tail
  · rw [if_pos empty]
    simp [packets, empty, Ring.content_nil]
  · have wrap : (if q.head + 1 ≥ q.cap then 0 else q.head + 1) = Ring.next q.cap q.head := by
      unfold Ring.next
      split <;> split <;> omega
    rw [if_neg empty, wrap]
    refine ⟨?_, ⟨Ring.next_lt h.head, h.tail⟩, rfl, rfl⟩
    rw [packets, Ring.content_pop _ h.head h.tail empty]
    rfl

end Queue

end Starnet.LuaNetpack
