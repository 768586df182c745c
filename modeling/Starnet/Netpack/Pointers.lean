import Starnet.Lib.Heap
import Starnet.Netpack.Fifo
import Starnet.Netpack.Service

/-! The library `lua-netpack.cpp` with its pointers. Entries, buffers and the ring are blocks of a
heap, and a program fails when it uses memory that is not allocated, reads a byte or an element that
was not written, reads behind the end of its input or overflows the size of the ring. -/

namespace Starnet.LuaNetpack.Memory

open Heap
open LuaNetpack.Queue (Filtered)

/-- `struct netpack` in the ring. -/
structure Netpack where
  id : Int32
  size : Nat
  buffer : Nat

/-- `struct uncomplete`; the null pointer is `none`. -/
structure Uncomplete where
  id : Int32 := 0
  size : Nat := 0
  buffer : Option Nat := none
  next : Option Nat := none
  read : Int := 0
  header : UInt8 := 0

/-- What `malloc` is called for. A byte or an element is `none` until it is written. -/
inductive Block
  | bytes (data : List (Option UInt8))
  | uncomplete (uc : Uncomplete)
  | netpacks (cap : Nat) (slot : Nat → Option Netpack)

/-- `struct queue`. -/
structure Queue where
  cap : Nat
  head : Nat
  tail : Nat
  hash : Fin hashSize → Option Nat
  queue : Nat

abbrev Prog := Heap.Prog Block

/-! ### Accesses -/

namespace Block

def bytes? : Block → Option (List (Option UInt8))
  | bytes data => some data
  | _ => none

def uncomplete? : Block → Option Uncomplete
  | uncomplete uc => some uc
  | _ => none

def netpacks? : Block → Option (Nat × (Nat → Option Netpack))
  | netpacks cap slot => some (cap, slot)
  | _ => none

end Block

/-- `malloc` of a buffer. -/
def mallocBytes (size : Nat) : Prog Nat := malloc (.bytes (List.replicate size none))

/-- `free`, which does nothing with the null pointer. -/
def freeBuffer : Option Nat → Prog Unit
  | none => pure ()
  | some p => free p

/-- `memcpy` of `n` bytes to the offset `off` of a buffer. -/
def memcpy (p off : Nat) (src : List UInt8) (n : Nat) : Prog Unit := do
  let data ← get (← load p).bytes?
  check (n ≤ src.length ∧ off + n ≤ data.length)
  store p (.bytes (data.take off ++ (src.take n).map some ++ data.drop (off + n)))

/-- `lua_pushlstring` of a buffer. -/
def pushlstring (p n : Nat) : Prog (List UInt8) := do
  let data ← get (← load p).bytes?
  check (n ≤ data.length)
  get ((data.take n).mapM id)

def uncomplete (p : Nat) : Prog Uncomplete := do get (← load p).uncomplete?

/-- Assignments to the fields of an entry. -/
def setUncomplete (p : Nat) (fields : Uncomplete → Uncomplete) : Prog Unit := do
  let uc ← uncomplete p
  store p (.uncomplete (fields uc))

/-- Element `i` of the array at `p`. -/
def netpack (p i : Nat) : Prog Netpack := do
  let (cap, slot) ← get (← load p).netpacks?
  check (i < cap)
  get (slot i)

def setNetpack (p i : Nat) (np : Netpack) : Prog Unit := do
  let (cap, slot) ← get (← load p).netpacks?
  check (i < cap)
  store p (.netpacks cap (Function.update slot i (some np)))

/-- `memcpy` of `n` elements from index `j` of the array at `src` to index `i` of that at `p`. -/
def copyNetpacks (p i src j n : Nat) : Prog Unit := do
  let (srcCap, srcSlot) ← get (← load src).netpacks?
  let (cap, slot) ← get (← load p).netpacks?
  check (j + n ≤ srcCap ∧ i + n ≤ cap)
  store p (.netpacks cap fun k => if i ≤ k ∧ k < i + n then srcSlot (j + (k - i)) else slot k)

/-! ### The functions of the library -/

/-- `clear_list`. -/
def clearList : Option Nat → Prog Unit :=
  loop fun
    | none => pure (.inr ())
    | some p => do
      freeBuffer (← uncomplete p).buffer
      let next := (← uncomplete p).next
      free p
      pure (.inl next)

/-- The loop of `find_uncomplete`. -/
def unlink (fd : Int32) : Nat → Prog (Option Nat) :=
  loop fun last => do
    match (← uncomplete last).next with
    | none => pure (.inr none)
    | some p =>
      let uc ← uncomplete p
      if uc.id = fd then
        setUncomplete last fun l => { l with next := uc.next }
        pure (.inr (some p))
      else pure (.inl p)

/-- `find_uncomplete`. -/
def findUncomplete (q : Queue) (fd : Int32) : Prog (Option Nat × Queue) :=
  match q.hash (hashFd fd) with
  | none => pure (none, q)
  | some p => do
    let uc ← uncomplete p
    if uc.id = fd then
      pure (some p, { q with hash := Function.update q.hash (hashFd fd) uc.next })
    else
      let found ← unlink fd p
      pure (found, q)

/-- `save_uncomplete`. -/
def saveUncomplete (q : Queue) (fd : Int32) : Prog (Nat × Queue) := do
  let p ← malloc (.uncomplete { id := fd, next := q.hash (hashFd fd) })
  pure (p, { q with hash := Function.update q.hash (hashFd fd) (some p) })

/-- `read_size`. -/
def readSize (buffer : List UInt8) : Prog Nat := do
  let hi ← get buffer[0]?
  let lo ← get buffer[1]?
  pure (LuaNetpack.readSize hi lo)

/-- `expand_queue`. -/
def expandQueue (q : Queue) (sz : Nat) : Prog Queue := do
  let nq ← malloc (.netpacks sz fun _ => none)
  if q.head > q.tail then
    let n := q.cap - q.head
    copyNetpacks nq 0 q.queue q.head n
    copyNetpacks nq n q.queue 0 (q.tail + 1)
    free q.queue
    pure { q with tail := n + q.tail, queue := nq, head := 0, cap := sz }
  else
    copyNetpacks nq 0 q.queue q.head (q.tail - q.head)
    free q.queue
    pure { q with tail := q.tail - q.head, queue := nq, head := 0, cap := sz }

/-- `push_data`, which every caller lets copy the buffer. -/
def pushData (q : Queue) (fd : Int32) (buffer : List UInt8) (size : Nat) : Prog Queue := do
  let tmp ← mallocBytes size
  memcpy tmp 0 buffer size
  let next := if q.tail + 1 ≥ q.cap then q.tail + 1 - q.cap else q.tail + 1
  let q ← (if next = q.head then do
      -- the new capacity has to fit in an `int`
      check (q.cap * 2 < 2 ^ 31)
      expandQueue q (q.cap * 2)
    else pure q : Prog Queue)
  setNetpack q.queue q.tail { id := fd, size, buffer := tmp }
  pure { q with tail := if q.tail + 1 ≥ q.cap then q.tail + 1 - q.cap else q.tail + 1 }

/-- What `push_more` and `filter_data` do with a single byte. -/
def saveHeader (q : Queue) (fd : Int32) (buffer : List UInt8) : Prog Queue := do
  let (p, q) ← saveUncomplete q fd
  let header ← get buffer[0]?
  setUncomplete p fun uc => { uc with read := -1, header }
  pure q

/-- What `push_more` and `filter_data` do with `size` bytes of a packet of `packSize` bytes. -/
def saveBody (q : Queue) (fd : Int32) (buffer : List UInt8) (size packSize : Nat) :
    Prog Queue := do
  let (p, q) ← saveUncomplete q fd
  let tmp ← mallocBytes packSize
  setUncomplete p fun uc => { uc with read := size, size := packSize, buffer := some tmp }
  memcpy tmp 0 buffer size
  pure q

/-- `push_more`. -/
def pushMore (q : Queue) (fd : Int32) (buffer : List UInt8) (size : Nat) : Prog Queue :=
  if size = 0 then pure q
  else if size = 1 then saveHeader q fd buffer
  else do
    let packSize ← readSize buffer
    let buffer := buffer.drop 2
    let size := size - 2
    if size < packSize then saveBody q fd buffer size packSize
    else
      let q ← pushData q fd buffer packSize
      pushMore q fd (buffer.drop packSize) (size - packSize)
termination_by size

/-- The first lines of `filter_data` for an entry of which only the first length byte is known. -/
def completeHeader (p : Nat) (buffer : List UInt8) (size : Nat) : Prog (List UInt8 × Nat) := do
  let uc ← uncomplete p
  if uc.read < 0 then
    let lo ← get buffer[0]?
    let packSize := lo.toNat ||| uc.header.toNat <<< 8
    let tmp ← mallocBytes packSize
    setUncomplete p fun uc => { uc with size := packSize, buffer := some tmp, read := 0 }
    pure (buffer.drop 1, size - 1)
  else pure (buffer, size)

/-- The rest of `filter_data` for an entry that is no longer in the table. -/
def fill (q : Queue) (fd : Int32) (p : Nat) (buffer : List UInt8) (size : Nat) :
    Prog (Filtered × Queue) := do
  let uc ← uncomplete p
  let tmp ← get uc.buffer
  -- `memcpy` takes a negative length for a huge one
  let need ← get (Int.toNat? (uc.size - uc.read))
  if size < need then
    memcpy tmp uc.read.toNat buffer size
    setUncomplete p fun uc => { uc with read := uc.read + size, next := q.hash (hashFd fd) }
    pure (.none, { q with hash := Function.update q.hash (hashFd fd) (some p) })
  else
    memcpy tmp uc.read.toNat buffer need
    let buffer := buffer.drop need
    let size := size - need
    if size = 0 then
      let msg ← pushlstring tmp uc.size
      free tmp
      free p
      pure (.data fd msg, q)
    else
      free p
      let q ← pushMore q fd buffer size
      let msg ← pushlstring tmp uc.size
      free tmp
      pure (.more fd msg, q)

/-- `filter_data` when `fd` has no entry. -/
def filterFresh (q : Queue) (fd : Int32) (buffer : List UInt8) (size : Nat) :
    Prog (Filtered × Queue) := do
  if size = 1 then
    let q ← saveHeader q fd buffer
    pure (.none, q)
  else
    let packSize ← readSize buffer
    let buffer := buffer.drop 2
    let size := size - 2
    if size < packSize then
      let q ← saveBody q fd buffer size packSize
      pure (.none, q)
    else if size = packSize then
      check (size ≤ buffer.length)
      pure (.data fd (buffer.take size), q)
    else
      check (packSize ≤ buffer.length)
      let q ← pushMore q fd (buffer.drop packSize) (size - packSize)
      pure (.more fd (buffer.take packSize), q)

/-- `filter_data`. -/
def filterData (q : Queue) (fd : Int32) (buffer : List UInt8) (size : Nat) :
    Prog (Filtered × Queue) :=
  if size = 0 then pure (.none, q)
  else do
    match ← findUncomplete q fd with
    | (some p, q) =>
      let (buffer, size) ← completeHeader p buffer size
      fill q fd p buffer size
    | (none, q) => filterFresh q fd buffer size

/-- `lcreate`. -/
def lcreate : Prog Queue := do
  let queue ← malloc (.netpacks queueSize fun _ => none)
  pure { cap := queueSize, head := 0, tail := 0, hash := fun _ => none, queue }

/-- `lpop`. -/
def lpop (q : Queue) : Prog (Option (Int32 × List UInt8) × Queue) :=
  if q.head = q.tail then pure (none, q)
  else do
    let np ← netpack q.queue q.head
    let msg ← pushlstring np.buffer np.size
    free np.buffer
    pure (some (np.id, msg), { q with head := if q.head + 1 ≥ q.cap then 0 else q.head + 1 })

/-- `lclose`. -/
def lclose (q : Queue) (fd : Int32) : Prog Queue := do
  match ← findUncomplete q fd with
  | (some p, q) =>
    freeBuffer (← uncomplete p).buffer
    free p
    pure q
  | (none, q) => pure q

/-- The loop of `lclear` and `lgc` over the chains. -/
def clearHash (q : Queue) : Prog Unit :=
  forM (List.finRange hashSize) fun i => clearList (q.hash i)

/-- The loop of `lclear` and `lgc` over the ring. -/
def clearQueue : Queue → Prog Unit :=
  loop fun q =>
    if q.head = q.tail then pure (.inr ())
    else do
      let np ← netpack q.queue q.head
      free np.buffer
      pure (.inl { q with head := if q.head + 1 ≥ q.cap then 0 else q.head + 1 })

/-- `lclear`. -/
def lclear (q : Queue) : Prog Queue := do
  clearHash q
  clearQueue q
  pure { q with hash := fun _ => none, head := 0, tail := 0 }

/-- `lgc`. -/
def lgc (q : Queue) : Prog Unit := do
  clearHash q
  clearQueue q
  free q.queue

/-- `lpack`. -/
def lpack (msg : List UInt8) : Prog (Except String (List UInt8)) :=
  if msg.length ≥ 0x10000 then
    pure (.error s!"Invalid size (too long) of data : {(Int32.ofNat msg.length).toInt}")
  else do
    let buffer ← mallocBytes (msg.length + 2)
    memcpy buffer 0 [UInt8.ofNat (msg.length >>> 8)] 1
    memcpy buffer 1 [UInt8.ofNat (msg.length &&& 0xff)] 1
    memcpy buffer 2 msg msg.length
    let packed ← pushlstring buffer (msg.length + 2)
    free buffer
    pure (.ok packed)

/-! ### Calls -/

/-- A call of a function of the library. `filter` parses the first `size` bytes of `buff`. -/
inductive Call
  | filter (fd : Int32) (buff : List UInt8) (size : Nat)
  | pop
  | close (fd : Int32)
  | clear
  | pack (msg : List UInt8)

/-- What a call returns to Lua. -/
inductive Result
  | filtered (result : Filtered)
  | popped (packet : Option (Int32 × List UInt8))
  | packed (result : Except String (List UInt8))
  | nothing

/-- The size of the input is at most its length. -/
def Call.InBuffer : Call → Prop
  | .filter _ buff size => size ≤ buff.length
  | _ => True

def call (q : Queue) : Call → Prog (Result × Queue)
  | .filter fd buff size => do
    let (result, q) ← filterData q fd buff size
    pure (.filtered result, q)
  | .pop => do
    let (packet, q) ← lpop q
    pure (.popped packet, q)
  | .close fd => do
    let q ← lclose q fd
    pure (.nothing, q)
  | .clear => do
    let q ← lclear q
    pure (.nothing, q)
  | .pack msg => do
    let result ← lpack msg
    pure (.packed result, q)

def calls (q : Queue) : List Call → Prog (List Result × Queue)
  | [] => pure ([], q)
  | c :: cs => do
    let (result, q) ← call q c
    let (results, q) ← calls q cs
    pure (result :: results, q)

/-- The life of a queue, from its creation to its collection. -/
def life (cs : List Call) : Prog (List Result) := do
  let q ← lcreate
  let (results, q) ← calls q cs
  lgc q
  pure results

/-- A call with the queue without pointers. -/
def answer (q : LuaNetpack.Queue) : Call → Result × LuaNetpack.Queue
  | .filter fd buff size =>
    (.filtered (q.filterData fd (buff.take size)).1, (q.filterData fd (buff.take size)).2)
  | .pop =>
    match q.lpop with
    | none => (.popped none, q)
    | some (packet, q) => (.popped (some packet), q)
  | .close fd => (.nothing, q.lclose fd)
  | .clear => (.nothing, q.lclear)
  | .pack msg => (.packed (LuaNetpack.lpack msg), q)

def answers (q : LuaNetpack.Queue) : List Call → List Result × LuaNetpack.Queue
  | [] => ([], q)
  | c :: cs => ((answer q c).1 :: (answers (answer q c).2 cs).1, (answers (answer q c).2 cs).2)

/-! ### What the accesses do -/

section Accesses

variable {γ : Type} {m r foot : Multiset (Nat × Block)} {S : γ → Multiset (Nat × Block) → Prop}
  {p : Nat} {d : List (Option UInt8)} {u : Uncomplete} {cap : Nat} {slot : Nat → Option Netpack}

theorem ensures_memcpy {g : Unit → Prog γ} {off n : Nat} {src : List UInt8}
    (here : m = {(p, .bytes d)} + r) (read : n ≤ src.length) (fits : off + n ≤ d.length)
    (next : Ensures
      ({(p, .bytes (d.take off ++ (src.take n).map some ++ d.drop (off + n)))} + r)
      (g ()) S) : Ensures m (memcpy p off src n >>= g) S := by
  simp only [memcpy, bind_assoc]
  exact .load here (.get rfl (.check ⟨read, fits⟩ (.store here next)))

theorem mapM_some (bytes : List UInt8) : (bytes.map some).mapM id = some bytes := by
  have all := List.mapM_pure (m := Option) (l := bytes) (f := id)
  rw [List.map_id] at all
  rw [List.mapM_map]
  exact all

theorem ensures_pushlstring {g : List UInt8 → Prog γ} (bytes : List UInt8) {n : Nat}
    (here : m = {(p, .bytes (bytes.map some))} + r) (all : bytes.length = n)
    (next : Ensures m (g bytes) S) : Ensures m (pushlstring p n >>= g) S := by
  simp only [pushlstring, bind_assoc]
  refine .load here (.get rfl (.check ?_ (.get ?_ next)))
  · rw [List.length_map, all]
  · rw [← all, ← List.map_take, List.take_length, mapM_some]

theorem ensures_uncomplete {g : Uncomplete → Prog γ} (here : m = {(p, .uncomplete u)} + r)
    (next : Ensures m (g u) S) : Ensures m (uncomplete p >>= g) S := by
  simp only [uncomplete, bind_assoc]
  exact .load here (.get rfl next)

theorem ensures_setUncomplete {g : Unit → Prog γ} {fields : Uncomplete → Uncomplete}
    (here : m = {(p, .uncomplete u)} + r)
    (next : Ensures ({(p, .uncomplete (fields u))} + r) (g ()) S) :
    Ensures m (setUncomplete p fields >>= g) S := by
  simp only [setUncomplete, bind_assoc]
  exact ensures_uncomplete here (.store here next)

theorem ensures_netpack {g : Netpack → Prog γ} {i : Nat} {np : Netpack}
    (here : m = {(p, .netpacks cap slot)} + r) (inside : i < cap) (there : slot i = some np)
    (next : Ensures m (g np) S) : Ensures m (netpack p i >>= g) S := by
  simp only [netpack, bind_assoc]
  exact .load here (.get rfl (.check inside (.get there next)))

theorem ensures_setNetpack {g : Unit → Prog γ} {i : Nat} {np : Netpack}
    (here : m = {(p, .netpacks cap slot)} + r) (inside : i < cap)
    (next : Ensures ({(p, .netpacks cap (Function.update slot i (some np)))} + r) (g ()) S) :
    Ensures m (setNetpack p i np >>= g) S := by
  simp only [setNetpack, bind_assoc]
  exact .load here (.get rfl (.check inside (.store here next)))

theorem ensures_copyNetpacks {g : Unit → Prog γ} {src i j n srcCap : Nat}
    {srcSlot : Nat → Option Netpack}
    (here : m = {(p, .netpacks cap slot)} + ({(src, .netpacks srcCap srcSlot)} + r))
    (read : j + n ≤ srcCap) (fits : i + n ≤ cap)
    (next : Ensures ({(p, .netpacks cap fun k =>
      if i ≤ k ∧ k < i + n then srcSlot (j + (k - i)) else slot k)} +
        ({(src, .netpacks srcCap srcSlot)} + r)) (g ()) S) :
    Ensures m (copyNetpacks p i src j n >>= g) S := by
  simp only [copyNetpacks, bind_assoc]
  exact .load (here.trans (add_left_comm _ _ _))
    (.get rfl (.load here (.get rfl (.check ⟨read, fits⟩ (.store here next)))))

end Accesses

end Starnet.LuaNetpack.Memory
