import Mathlib.Algebra.BigOperators.Fin
import Starnet.Netpack.Pointers

/-! No calls of the library `lua-netpack.cpp` use memory that is not allocated, their results are
those of the queue without pointers, and `lgc` leaves no block behind: the blocks of the heap are at
every moment those of a queue, each once. -/

namespace Starnet.LuaNetpack.Memory

open Heap
open LuaNetpack.Queue (Filtered)

/-! ### The queue that the blocks stand for -/

/-- The buffer of the entry `uc` and its block. There is none while the size is not known. -/
inductive Buffered (uc : LuaNetpack.Uncomplete) : Option Nat → Multiset (Nat × Block) → Prop
  | header (unknown : uc.read < 0) : Buffered uc none 0
  | body {p : Nat} {rest : List (Option UInt8)} (known : 0 ≤ uc.read)
      (size : uc.buffer.length + rest.length = uc.size) :
      Buffered uc (some p) {(p, .bytes (uc.buffer.map some ++ rest))}

/-- The fields `e` and the blocks `m` hold the entry `uc`. -/
structure Cell (e : Uncomplete) (uc : LuaNetpack.Uncomplete) (m : Multiset (Nat × Block)) : Prop
    where
  id : e.id = uc.id
  size : e.size = uc.size
  read : e.read = uc.read
  header : e.header = uc.header
  buffer : Buffered uc e.buffer m

/-- The blocks `m` are the entry `uc` at the pointer `p` and its buffer. -/
def Taken (p : Nat) (uc : LuaNetpack.Uncomplete) (m : Multiset (Nat × Block)) : Prop :=
  ∃ e buffer, Cell e uc buffer ∧ m = {(p, .uncomplete e)} + buffer

/-- The blocks `m` are a chain from a pointer on. -/
inductive Chain : Option Nat → List LuaNetpack.Uncomplete → Multiset (Nat × Block) → Prop
  | nil : Chain none [] 0
  | cons {p : Nat} {e : Uncomplete} {uc : LuaNetpack.Uncomplete} {ucs : List LuaNetpack.Uncomplete}
      {buffer m : Multiset (Nat × Block)} (cell : Cell e uc buffer) (chain : Chain e.next ucs m) :
      Chain (some p) (uc :: ucs) ({(p, .uncomplete e)} + (buffer + m))

/-- The blocks `m` are the buffers of packets. -/
inductive Packets : List (Option Netpack) → List LuaNetpack.Netpack → Multiset (Nat × Block) → Prop
  | nil : Packets [] [] 0
  | cons {buffer : Nat} {np : LuaNetpack.Netpack} {slots : List (Option Netpack)}
      {nps : List LuaNetpack.Netpack} {m : Multiset (Nat × Block)}
      (size : np.buffer.length = np.size) (packets : Packets slots nps m) :
      Packets (some ⟨np.id, np.size, buffer⟩ :: slots) (np :: nps)
        ({(buffer, .bytes (np.buffer.map some))} + m)

/-- The pointers of `c` and the blocks `m` hold the queue `q`. -/
structure Represents (c : Queue) (q : LuaNetpack.Queue) (m : Multiset (Nat × Block)) : Prop where
  cap : c.cap = q.cap
  head : c.head = q.head
  tail : c.tail = q.tail
  blocks : ∃ slot packets, ∃ chains : Fin hashSize → Multiset (Nat × Block),
    Packets (Ring.content slot q.cap q.head q.tail) (Ring.content q.queue q.cap q.head q.tail)
      packets ∧
    (∀ i, Chain (c.hash i) (q.hash i) (chains i)) ∧
    m = {(c.queue, .netpacks q.cap slot)} + (packets + ∑ i, chains i)

section Chains

variable {c : Queue} {q : LuaNetpack.Queue} {m r foot : Multiset (Nat × Block)} {fd : Int32}
  {uc : LuaNetpack.Uncomplete} {ucs : List LuaNetpack.Uncomplete} {e l : Uncomplete} {p : Nat}

theorem Buffered.none {buffer : Option Nat} (buffered : Buffered uc buffer m)
    (unknown : uc.read < 0) : m = 0 := by
  cases buffered with
  | header => rfl
  | body known => exact absurd known (Int.not_le.mpr unknown)

theorem Buffered.some {buffer : Option Nat} (buffered : Buffered uc buffer m)
    (known : 0 ≤ uc.read) :
    ∃ p rest, buffer = some p ∧ uc.buffer.length + rest.length = uc.size ∧
      m = {(p, .bytes (uc.buffer.map some ++ rest))} := by
  cases buffered with
  | header unknown => exact absurd known (Int.not_le.mpr unknown)
  | body _ size => exact ⟨_, _, rfl, size, rfl⟩

theorem Cell.link (cell : Cell e uc m) (next : Option Nat) : Cell { e with next } uc m :=
  ⟨cell.id, cell.size, cell.read, cell.header, cell.buffer⟩

theorem ensures_freeBuffer {γ : Type} {S : γ → Multiset (Nat × Block) → Prop} {buffer : Option Nat}
    {g : Unit → Prog γ} (buffered : Buffered uc buffer foot) (next : Ensures r (g ()) S) :
    Ensures (foot + r) (freeBuffer buffer >>= g) S := by
  cases buffered with
  | header =>
    rw [zero_add]
    simpa only [freeBuffer, pure_bind] using next
  | body => exact .free rfl next

theorem Chain.length_le {head : Option Nat} (chain : Chain head ucs m) : ucs.length ≤ m.card := by
  induction chain with
  | nil => exact Nat.le_refl 0
  | cons _ _ ih =>
    rw [List.length_cons, Multiset.card_add, Multiset.card_singleton, Multiset.card_add]
    omega

theorem clearList_spec {head : Option Nat} (chain : Chain head ucs m) :
    Ensures (m + r) (clearList head) fun _ m' => m' = r := by
  refine .loop (I := fun k head m' => ∃ ucs m, Chain head ucs m ∧ k = ucs.length ∧ m' = m + r)
    ⟨ucs, m, chain, rfl, rfl⟩ ?_ ?_
  · rw [Multiset.card_add]
    exact chain.length_le.trans (Nat.le_add_right ..)
  rintro _ head _ ⟨ucs, m, chain, rfl, rfl⟩
  cases chain with
  | nil => exact .pure (zero_add r)
  | @cons p e uc ucs buffer m cell chain =>
    dsimp only
    refine ensures_uncomplete (r := buffer + m + r) (by ac_rfl) (.of_eq (s := buffer +
      ({(p, .uncomplete e)} + (m + r))) (by ac_rfl) (ensures_freeBuffer cell.buffer ?_))
    exact ensures_uncomplete rfl (.free rfl
      (.pure ⟨ucs.length, Nat.lt_succ_self _, ucs, m, chain, rfl, rfl⟩))

/-- The chain of a slot, and what another chain in its place gives. -/
theorem Represents.chain_at (h : Represents c q m) (i : Fin hashSize) :
    ∃ chain rest, Chain (c.hash i) (q.hash i) chain ∧ m = chain + rest ∧
      ∀ {head : Option Nat} {ucs : List LuaNetpack.Uncomplete} {chain' : Multiset (Nat × Block)},
        Chain head ucs chain' → Represents { c with hash := Function.update c.hash i head }
          { q with hash := Function.update q.hash i ucs } (chain' + rest) := by
  obtain ⟨slot, packets, chains, ring, hash, rfl⟩ := h.blocks
  refine ⟨chains i, {(c.queue, .netpacks q.cap slot)} +
    (packets + ∑ j ∈ Finset.univ.erase i, chains j), hash i, ?_, fun {head ucs chain'} chain => ?_⟩
  · rw [← Finset.add_sum_erase _ chains (Finset.mem_univ i)]
    generalize ∑ j ∈ Finset.univ.erase i, chains j = others
    ac_rfl
  · refine ⟨h.cap, h.head, h.tail, slot, packets, Function.update chains i chain', ring,
      fun j => ?_, ?_⟩
    · by_cases same : j = i
      · subst same
        simpa only [Function.update_self] using chain
      · simpa only [Function.update_of_ne same] using hash j
    · have others : ∑ j ∈ Finset.univ.erase i, Function.update chains i chain' j =
          ∑ j ∈ Finset.univ.erase i, chains j :=
        Finset.sum_congr rfl fun j mem => Function.update_of_ne (Finset.ne_of_mem_erase mem) ..
      rw [← Finset.add_sum_erase _ (Function.update chains i chain') (Finset.mem_univ i),
        Function.update_self, others]
      generalize ∑ j ∈ Finset.univ.erase i, chains j = others
      ac_rfl

/-- The loop of `find_uncomplete` has taken an entry out of the chain behind `last`, or found none. -/
def Unlinked (fd : Int32) (last : Nat) (l : Uncomplete) (ucs : List LuaNetpack.Uncomplete)
    (m r : Multiset (Nat × Block)) (found : Option Nat) (m' : Multiset (Nat × Block)) : Prop :=
  (ucs.find? (·.id = fd) = none ∧ found = none ∧ m' = {(last, .uncomplete l)} + (m + r)) ∨
  ∃ uc p next foot chain, ucs.find? (·.id = fd) = some uc ∧ found = some p ∧ Taken p uc foot ∧
    Chain next (ucs.eraseP (·.id = fd)) chain ∧
    m' = {(last, .uncomplete { l with next })} + (foot + (chain + r))

/-- What the loop does behind the entry `p` it does behind the entry before. -/
theorem Unlinked.cons {last : Nat} {found : Option Nat} {buffer m' : Multiset (Nat × Block)}
    (cell : Cell e uc buffer) (at_p : l.next = some p) (other : uc.id ≠ fd)
    (unlinked : Unlinked fd p e ucs m ({(last, .uncomplete l)} + (buffer + r)) found m') :
    Unlinked fd last l (uc :: ucs) ({(p, .uncomplete e)} + (buffer + m)) r found m' := by
  unfold Unlinked
  rw [List.find?_cons_of_neg (by simpa using other), List.eraseP_cons_of_neg (by simpa using other)]
  rcases unlinked with ⟨none, rfl, rfl⟩ | ⟨uc', p', next, foot, m₁, found, rfl, taken, rest, rfl⟩
  · exact .inl ⟨none, rfl, by ac_rfl⟩
  · refine .inr ⟨uc', p', some p, foot, _, found, rfl, taken, .cons (cell.link next) rest, ?_⟩
    rw [← at_p]
    ac_rfl

theorem unlink_spec {last : Nat} (chain : Chain l.next ucs m) :
    Ensures ({(last, .uncomplete l)} + (m + r)) (unlink fd last) (Unlinked fd last l ucs m r) := by
  -- what the rest of the loop does behind the present entry is what the whole loop has to do
  refine .loop (I := fun k last' m' => ∃ l' ucs' m₁ r', Chain l'.next ucs' m₁ ∧
      k = ucs'.length ∧ m' = {(last', .uncomplete l')} + (m₁ + r') ∧
      ∀ found m', Unlinked fd last' l' ucs' m₁ r' found m' → Unlinked fd last l ucs m r found m')
    ⟨l, ucs, m, r, chain, rfl, rfl, fun _ _ => id⟩ ?_ ?_
  · have le := chain.length_le
    rw [Multiset.card_add, Multiset.card_add]
    omega
  rintro _ last' _ ⟨l', ucs', m₁, r', chain', rfl, rfl, whole⟩
  refine ensures_uncomplete rfl ?_
  generalize at_head : l'.next = head at chain'
  cases chain' with
  | nil => exact .pure (whole _ _ (.inl ⟨rfl, rfl, rfl⟩))
  | @cons p e uc ucs' buffer m₁ cell chain' =>
    dsimp only
    refine ensures_uncomplete (u := e) (r := {(last', .uncomplete l')} + (buffer + m₁ + r'))
      (by ac_rfl) ?_
    by_cases same : e.id = fd
    · have here : uc.id = fd := cell.id.symm.trans same
      rw [if_pos same]
      refine ensures_setUncomplete rfl (.pure (whole _ _ (.inr ⟨uc, p, e.next, _, m₁, ?_, rfl,
        ⟨e, buffer, cell, rfl⟩, ?_, by ac_rfl⟩)))
      · rw [List.find?_cons_of_pos (by simpa using here)]
      · rw [List.eraseP_cons_of_pos (by simpa using here)]
        exact chain'
    · have other : uc.id ≠ fd := fun eq => same (cell.id.trans eq)
      rw [if_neg same]
      exact .pure ⟨ucs'.length, Nat.lt_succ_self _, e, ucs', m₁, _, chain', rfl, by ac_rfl,
        fun found m' unlinked => whole _ _ (unlinked.cons cell at_head other)⟩

/-- `find_uncomplete` takes the entry out of its chain, if there is one. -/
theorem findUncomplete_spec (h : Represents c q m) (fd : Int32) :
    Ensures (m + r) (findUncomplete c fd) fun found m' =>
      (q.findUncomplete fd = (none, q) ∧ found = (none, c) ∧ m' = m + r) ∨
      ∃ uc q' p c' m₁ foot, q.findUncomplete fd = (some uc, q') ∧ found = (some p, c') ∧
        Represents c' q' m₁ ∧ Taken p uc foot ∧ m' = m₁ + (foot + r) := by
  obtain ⟨chain, rest, here, rfl, other⟩ := h.chain_at (hashFd fd)
  generalize slot : c.hash (hashFd fd) = head at here
  generalize entries : q.hash (hashFd fd) = ucs at here
  simp only [findUncomplete, LuaNetpack.Queue.findUncomplete, slot, entries]
  cases here with
  | nil => exact .pure (.inl ⟨rfl, rfl, rfl⟩)
  | @cons p e uc ucs buffer m cell chain =>
    refine ensures_uncomplete (u := e) (r := buffer + m + (rest + r)) (by ac_rfl) ?_
    by_cases same : e.id = fd
    · have here : uc.id = fd := cell.id.symm.trans same
      rw [if_pos same, List.find?_cons_of_pos (by simpa using here),
        List.eraseP_cons_of_pos (by simpa using here)]
      exact .pure (.inr ⟨uc, _, p, _, _, _, rfl, rfl, other chain, ⟨e, buffer, cell, rfl⟩,
        by ac_rfl⟩)
    · have ne : ¬uc.id = fd := fun eq => same (cell.id.trans eq)
      rw [if_neg same, List.find?_cons_of_neg (by simpa using ne),
        List.eraseP_cons_of_neg (by simpa using ne)]
      refine .of_eq (s := {(p, .uncomplete e)} + (m + (buffer + (rest + r)))) (by ac_rfl)
        ((unlink_spec chain).bind ?_)
      rintro _ m' (⟨none, rfl, rfl⟩ | ⟨uc', p', next, foot, m₁, found, rfl, taken, chain', rfl⟩)
      · rw [none]
        exact .pure (.inl ⟨rfl, rfl, by ac_rfl⟩)
      · rw [found]
        have unlinked := other (.cons (p := p) (cell.link next) chain')
        rw [← slot, Function.update_eq_self] at unlinked
        exact .pure (.inr ⟨uc', _, p', c, _, foot, rfl, rfl, unlinked, taken, by ac_rfl⟩)

/-- A new entry in front of the chain of its connection. -/
theorem Represents.link (h : Represents c q m) (fd : Int32) (p : Nat) (taken : Cell e uc foot)
    (next : e.next = c.hash (hashFd fd)) :
    ∃ m₁, Represents { c with hash := Function.update c.hash (hashFd fd) (some p) }
      (q.link fd uc) m₁ ∧ {(p, .uncomplete e)} + (foot + m) = m₁ := by
  obtain ⟨chain, rest, here, rfl, other⟩ := h.chain_at (hashFd fd)
  refine ⟨_, other (.cons (p := p) taken (next ▸ here)), ?_⟩
  ac_rfl

theorem saveHeader_spec (h : Represents c q m) (fd : Int32) (header : UInt8)
    (extra : List UInt8) :
    Ensures (m + r) (saveHeader c fd (header :: extra)) fun c' m' => ∃ m₁,
      Represents c' (q.saveUncomplete fd fun uc => { uc with read := -1, header }) m₁ ∧
      m' = m₁ + r := by
  simp only [saveHeader, saveUncomplete, bind_assoc, pure_bind]
  refine .malloc fun p => .get rfl (ensures_setUncomplete rfl (.pure ?_))
  have cell : Cell { id := fd, next := c.hash (hashFd fd), read := -1, header }
      { id := fd, read := -1, header } 0 :=
    ⟨rfl, rfl, rfl, rfl, .header (Int.negSucc_lt_zero 0)⟩
  obtain ⟨m₁, saved, rfl⟩ := h.link fd p cell rfl
  exact ⟨_, saved, by rw [zero_add]; ac_rfl⟩

theorem saveBody_spec (h : Represents c q m) (fd : Int32) {buffer : List UInt8} {packSize : Nat}
    (short : buffer.length < packSize) (extra : List UInt8) :
    Ensures (m + r) (saveBody c fd (buffer ++ extra) buffer.length packSize) fun c' m' => ∃ m₁,
      Represents c' (q.saveUncomplete fd fun uc =>
        { uc with read := buffer.length, size := packSize, buffer }) m₁ ∧ m' = m₁ + r := by
  simp only [saveBody, saveUncomplete, mallocBytes, bind_assoc, pure_bind]
  refine .malloc fun p => .malloc fun tmp => ensures_setUncomplete (r := {(tmp, .bytes
    (List.replicate packSize none))} + (m + r)) (add_left_comm _ _ _) (ensures_memcpy
    (add_left_comm _ _ _) (by simp) (by simpa using short.le) (.pure ?_))
  have copied : (List.replicate packSize (none : Option UInt8)).take 0 ++
      ((buffer ++ extra).take buffer.length).map some ++
      (List.replicate packSize (none : Option UInt8)).drop (0 + buffer.length) =
      buffer.map some ++ List.replicate (packSize - buffer.length) none := by simp
  have cell : Cell
      { id := fd, size := packSize, buffer := some tmp, next := c.hash (hashFd fd),
        read := buffer.length }
      { id := fd, size := packSize, buffer, read := buffer.length }
      {(tmp, .bytes (buffer.map some ++ List.replicate (packSize - buffer.length) none))} := by
    refine ⟨rfl, rfl, rfl, rfl, .body (Int.natCast_nonneg _) ?_⟩
    rw [List.length_replicate]
    exact Nat.add_sub_cancel' short.le
  rw [copied]
  obtain ⟨m₁, saved, rfl⟩ := h.link fd p cell rfl
  exact ⟨_, saved, by ac_rfl⟩

end Chains

/-! ### The ring -/

section Ring

variable {c : Queue} {q : LuaNetpack.Queue} {m r : Multiset (Nat × Block)} {fd : Int32}

theorem Packets.concat {slots : List (Option Netpack)} {nps : List LuaNetpack.Netpack}
    (packets : Packets slots nps m) (np : LuaNetpack.Netpack) (size : np.buffer.length = np.size)
    (buffer : Nat) : Packets (slots ++ [some ⟨np.id, np.size, buffer⟩]) (nps ++ [np])
      ({(buffer, .bytes (np.buffer.map some))} + m) := by
  induction packets with
  | nil => exact .cons size .nil
  | cons size' packets ih =>
    rw [add_left_comm]
    exact .cons size' ih

theorem expandQueue_spec (h : Represents c q m) (bounds : q.InBounds) {sz : Nat}
    (larger : q.cap ≤ sz) :
    Ensures (m + r) (expandQueue c sz) fun c' m' => ∃ m₁,
      Represents c' (q.expandQueue sz) m₁ ∧ m' = m₁ + r := by
  have inside := bounds.head
  have inside' := bounds.tail
  obtain ⟨slot, packets, chains, ring, hash, rfl⟩ := h.blocks
  generalize sum : ∑ i, chains i = entries
  simp only [expandQueue, LuaNetpack.Queue.expandQueue, h.cap, h.head, h.tail]
  refine .malloc fun nq => ?_
  by_cases wrapped : q.tail < q.head
  · rw [if_pos wrapped, if_pos wrapped]
    refine ensures_copyNetpacks (r := packets + entries + r) (by ac_rfl) (by omega) (by omega)
      (ensures_copyNetpacks rfl (by omega) (by omega) (.free (add_left_comm _ _ _) (.pure ?_)))
    refine ⟨_, ⟨rfl, rfl, rfl, _, packets, chains, ?_, hash, rfl⟩, by rw [sum]; ac_rfl⟩
    rw [Ring.content_unwrap (a := slot) sz inside wrapped (fun k hk => ?_) fun k hk => ?_,
      Ring.content_unwrap (a := q.queue) sz inside wrapped (fun k hk => ?_) fun k hk => ?_]
    · exact ring
    · exact if_pos hk
    · dsimp only
      rw [if_neg (by omega), if_pos (by omega), Nat.add_sub_cancel_left]
    · rw [if_neg (by omega), if_pos (by omega), Nat.sub_zero]
    · rw [if_pos (by omega), Nat.add_sub_cancel_left]
  · rw [if_neg wrapped, if_neg wrapped]
    refine ensures_copyNetpacks (r := packets + entries + r) (by ac_rfl) (by omega) (by omega)
      (.free (add_left_comm _ _ _) (.pure ?_))
    refine ⟨_, ⟨rfl, rfl, rfl, _, packets, chains, ?_, hash, rfl⟩, by rw [sum]; ac_rfl⟩
    rw [Ring.content_shift (a := slot) sz (Nat.not_lt.mp wrapped) fun k hk => ?_,
      Ring.content_shift (a := q.queue) sz (Nat.not_lt.mp wrapped) fun k hk => ?_]
    · exact ring
    · exact if_pos hk
    · rw [if_pos (by omega), Nat.sub_zero]

/-- The capacity that `push_data` doubles is that of a full ring. -/
theorem cap_lt (bounds : q.InBounds) {buffer : List UInt8} {size : Nat}
    (few : (q.pushData fd buffer size).packets.length < 2 ^ 30)
    (full : Ring.next q.cap q.tail = q.head) : q.cap * 2 < 2 ^ 31 := by
  have all := (LuaNetpack.Queue.full_iff bounds).mp
    ((LuaNetpack.Queue.advance_eq bounds.tail).trans full)
  obtain ⟨-, packets, -⟩ := LuaNetpack.Queue.pushData_spec bounds fd buffer size
  rw [packets, List.length_append, List.length_singleton, all] at few
  omega

theorem pushData_spec (h : Represents c q m) (bounds : q.InBounds) {buffer : List UInt8}
    {size : Nat} (fits : size ≤ buffer.length)
    (few : (q.pushData fd buffer size).packets.length < 2 ^ 30)
    (extra : List UInt8) :
    Ensures (m + r) (pushData c fd (buffer ++ extra) size) fun c' m' => ∃ m₁,
      Represents c' (q.pushData fd buffer size) m₁ ∧ m' = m₁ + r := by
  have cap := cap_lt bounds few
  obtain ⟨bounds', free, -, -⟩ := LuaNetpack.Queue.room bounds
  have copied : (List.replicate size (none : Option UInt8)).take 0 ++
      ((buffer ++ extra).take size).map some ++
      (List.replicate size (none : Option UInt8)).drop (0 + size) =
      (buffer.take size).map some := by
    simp [List.take_append_of_le_length fits]
  simp only [pushData, mallocBytes, h.cap, h.head, h.tail,
    LuaNetpack.Queue.advance_eq bounds.tail]
  refine .malloc fun tmp => ensures_memcpy rfl ?_ (by simp) ?_
  · rw [List.length_append]
    omega
  rw [copied, LuaNetpack.Queue.pushData]
  simp only [LuaNetpack.Queue.advance_eq bounds.tail]
  refine .bind (Q := fun c' m' => ∃ m₁, Represents c'
    (if Ring.next q.cap q.tail = q.head then q.expandQueue (q.cap * 2) else q) m₁ ∧
    m' = m₁ + ({(tmp, .bytes ((buffer.take size).map some))} + r)) ?_ ?_
  · by_cases full : Ring.next q.cap q.tail = q.head
    · rw [if_pos full, if_pos full]
      exact .check (h.cap ▸ cap full) (.of_eq (add_left_comm _ _ _)
        (expandQueue_spec h bounds (Nat.le_mul_of_pos_right _ Nat.two_pos)))
    · rw [if_neg full, if_neg full]
      exact .pure ⟨m, h, add_left_comm _ _ _⟩
  · generalize (if Ring.next q.cap q.tail = q.head then q.expandQueue (q.cap * 2) else q) = q' at *
    rintro c' _ ⟨m₁, h', rfl⟩
    simp only [h'.cap, h'.tail, LuaNetpack.Queue.advance_eq bounds'.tail]
    obtain ⟨slot, packets, chains, ring, hash, rfl⟩ := h'.blocks
    have pushed := ring.concat ⟨fd, size, buffer.take size⟩
      (List.length_take_of_le fits) tmp
    rw [← Ring.content_push _ bounds'.head bounds'.tail free,
      ← Ring.content_push _ bounds'.head bounds'.tail free] at pushed
    refine ensures_setNetpack (add_assoc _ _ _) bounds'.tail
      (.pure ⟨_, ⟨rfl, h'.head, rfl, _, _, chains, pushed, hash, rfl⟩, ?_⟩)
    generalize ∑ i, chains i = entries
    ac_rfl

theorem packets_pushMore (bounds : q.InBounds) (fd : Int32) (stream : List UInt8) :
    q.packets.length ≤ (q.pushMore fd stream).packets.length := by
  induction q, stream using LuaNetpack.Queue.pushMore.induct fd with
  | case1 q => rw [LuaNetpack.Queue.pushMore]
  | case2 q header => rw [LuaNetpack.Queue.pushMore]; rfl
  | case3 q hi lo buffer packSize short =>
    rw [LuaNetpack.Queue.pushMore, if_pos short]
    rfl
  | case4 q hi lo buffer packSize complete ih =>
    obtain ⟨bounds', packets, -⟩ := LuaNetpack.Queue.pushData_spec bounds fd buffer packSize
    have more := ih bounds'
    rw [packets, List.length_append] at more
    rw [LuaNetpack.Queue.pushMore, if_neg complete]
    exact (Nat.le_add_right _ _).trans more

theorem readSize_spec {γ : Type} {S : γ → Multiset (Nat × Block) → Prop} {hi lo : UInt8}
    {rest : List UInt8} {g : Nat → Prog γ} (next : Ensures m (g (LuaNetpack.readSize hi lo)) S) :
    Ensures m (readSize (hi :: lo :: rest) >>= g) S := by
  simp only [readSize, bind_assoc, pure_bind]
  exact .get rfl (.get rfl next)

/-- `push_more` parses the first bytes of its input. -/
theorem pushMore_spec (bounds : q.InBounds) {stream : List UInt8}
    (few : (q.pushMore fd stream).packets.length < 2 ^ 30) (extra : List UInt8) :
    ∀ {c : Queue} {m : Multiset (Nat × Block)}, Represents c q m →
      Ensures (m + r) (pushMore c fd (stream ++ extra) stream.length) fun c' m' => ∃ m₁,
        Represents c' (q.pushMore fd stream) m₁ ∧ m' = m₁ + r := by
  induction q, stream using LuaNetpack.Queue.pushMore.induct fd with
  | case1 q =>
    intro c m h
    rw [pushMore, LuaNetpack.Queue.pushMore]
    exact .pure ⟨m, h, rfl⟩
  | case2 q header =>
    intro c m h
    rw [pushMore, LuaNetpack.Queue.pushMore]
    exact saveHeader_spec h fd header extra
  | case3 q hi lo buffer packSize short =>
    intro c m h
    rw [pushMore, LuaNetpack.Queue.pushMore, if_pos short, if_neg (by simp), if_neg (by simp)]
    refine readSize_spec ?_
    dsimp only [List.cons_append]
    rw [show (hi :: lo :: (buffer ++ extra)).drop 2 = buffer ++ extra from rfl,
      show (hi :: lo :: buffer).length - 2 = buffer.length from rfl, if_pos short]
    exact saveBody_spec h fd short extra
  | case4 q hi lo buffer packSize complete ih =>
    intro c m h
    have fits := Nat.not_lt.mp complete
    rw [LuaNetpack.Queue.pushMore, if_neg complete] at few ⊢
    rw [pushMore, if_neg (by simp), if_neg (by simp)]
    refine readSize_spec ?_
    dsimp only [List.cons_append]
    rw [show (hi :: lo :: (buffer ++ extra)).drop 2 = buffer ++ extra from rfl,
      show (hi :: lo :: buffer).length - 2 = buffer.length from rfl, if_neg complete]
    obtain ⟨bounds', -⟩ := LuaNetpack.Queue.pushData_spec bounds fd buffer packSize
    have few' := (packets_pushMore bounds' fd _).trans_lt few
    refine (pushData_spec h bounds fits few' extra).bind ?_
    rintro c' _ ⟨m₁, pushed, rfl⟩
    have parsed := ih bounds' few pushed
    rw [← List.drop_append_of_le_length fits, List.length_drop] at parsed
    exact parsed

end Ring

/-! ### Parsing -/

section Filter

variable {c : Queue} {q : LuaNetpack.Queue} {m r foot : Multiset (Nat × Block)} {fd : Int32}
  {uc : LuaNetpack.Uncomplete} {p : Nat}

/-- The length of an entry is completed with the first byte of the input. -/
theorem completeHeader_spec (taken : Taken p uc foot) {stream : List UInt8} (nonempty : stream ≠ [])
    (extra : List UInt8) {uc' : LuaNetpack.Uncomplete} {stream' : List UInt8}
    (completed : LuaNetpack.Queue.completeHeader uc stream = (uc', stream')) :
    Ensures (foot + r) (completeHeader p (stream ++ extra) stream.length) fun input m' =>
      ∃ foot', input = (stream' ++ extra, stream'.length) ∧ Taken p uc' foot' ∧ m' = foot' + r := by
  obtain ⟨lo, rest, rfl⟩ := List.exists_cons_of_ne_nil nonempty
  obtain ⟨e, buffer, cell, rfl⟩ := taken
  unfold LuaNetpack.Queue.completeHeader at completed
  unfold completeHeader
  refine ensures_uncomplete (add_assoc _ _ _) ?_
  by_cases header : uc.read < 0
  · simp only [if_pos header] at completed
    cases completed
    rw [if_pos (cell.read ▸ header), cell.buffer.none header, add_zero, cell.header]
    refine .get rfl (.malloc fun tmp => ensures_setUncomplete (add_left_comm _ _ _) (.pure ?_))
    generalize lo.toNat ||| uc.header.toNat <<< 8 = packSize
    have whole : Buffered { uc with size := packSize, buffer := [], read := 0 } (some tmp)
        {(tmp, .bytes (List.replicate packSize none))} := .body le_rfl (by simp)
    exact ⟨_, rfl, ⟨{ e with size := packSize, buffer := some tmp, read := 0 }, _,
      ⟨cell.id, rfl, rfl, cell.header, whole⟩, rfl⟩, (add_assoc _ _ _).symm⟩
  · simp only [if_neg header] at completed
    cases completed
    rw [if_neg (cell.read ▸ header)]
    exact .pure ⟨_, rfl, ⟨e, buffer, cell, rfl⟩, rfl⟩

/-- The buffer of an entry after `k` more bytes. -/
theorem copied (known : List UInt8) (rest : List (Option UInt8)) {stream : List UInt8} {k : Nat}
    (le : k ≤ stream.length) (extra : List UInt8) :
    (known.map some ++ rest).take known.length ++ ((stream ++ extra).take k).map some ++
      (known.map some ++ rest).drop (known.length + k) =
    (known ++ stream.take k).map some ++ rest.drop k := by
  rw [List.take_append_of_le_length le, List.map_append, List.append_assoc, List.append_assoc]
  congr 1
  · rw [List.take_append_of_le_length (by rw [List.length_map]), List.take_of_length_le (by simp)]
  · congr 1
    rw [List.drop_append, List.length_map, Nat.add_sub_cancel_left,
      List.drop_of_length_le (by simp), List.nil_append]

theorem fill_spec (h : Represents c q m) (bounds : q.InBounds) (taken : Taken p uc foot)
    (read : uc.read = uc.buffer.length) (fits : uc.buffer.length ≤ uc.size) {stream : List UInt8}
    (few : (q.fill fd uc stream).2.packets.length < 2 ^ 30) (extra : List UInt8) :
    Ensures (m + (foot + r)) (fill c fd p (stream ++ extra) stream.length) fun result m' => ∃ m₁,
      result.1 = (q.fill fd uc stream).1 ∧ Represents result.2 (q.fill fd uc stream).2 m₁ ∧
      m' = m₁ + r := by
  obtain ⟨e, buffer, cell, rfl⟩ := taken
  obtain ⟨tmp, rest, pointer, size, rfl⟩ := cell.buffer.some (by omega)
  have offset : e.read.toNat = uc.buffer.length := by rw [cell.read]; omega
  have need : Int.toNat? (e.size - e.read) = some rest.length := by
    rw [cell.size, cell.read, read, ← size, Nat.cast_add, add_sub_cancel_left]
    rfl
  have need' : uc.size - uc.read.toNat = rest.length := by omega
  unfold fill
  rw [LuaNetpack.Queue.fill, need'] at few ⊢
  refine ensures_uncomplete (u := e)
    (r := m + ({(tmp, .bytes (uc.buffer.map some ++ rest))} + r)) (by ac_rfl)
    (.get pointer (.get need ?_))
  by_cases short : stream.length < rest.length
  · rw [if_pos short, if_pos short]
    refine ensures_memcpy (d := uc.buffer.map some ++ rest)
      (r := {(p, .uncomplete e)} + (m + r)) (by ac_rfl) (by simp) (by simp; omega) ?_
    rw [offset, copied _ _ le_rfl, List.take_length]
    refine ensures_setUncomplete (add_left_comm _ _ _) (.pure ?_)
    have longer : Cell { e with read := e.read + stream.length, next := c.hash (hashFd fd) }
        { uc with buffer := uc.buffer ++ stream, read := uc.read + stream.length }
        {(tmp, .bytes ((uc.buffer ++ stream).map some ++ rest.drop stream.length))} := by
      refine ⟨cell.id, cell.size, by rw [cell.read], cell.header, ?_⟩
      rw [pointer]
      refine .body (by dsimp only; omega) ?_
      rw [List.length_append, List.length_drop]
      dsimp only
      omega
    obtain ⟨m₁, linked, rfl⟩ := h.link fd p longer rfl
    exact ⟨_, rfl, linked, by ac_rfl⟩
  · rw [if_neg short] at few
    rw [if_neg short, if_neg short]
    have le := Nat.not_lt.mp short
    refine ensures_memcpy (d := uc.buffer.map some ++ rest)
      (r := {(p, .uncomplete e)} + (m + r)) (by ac_rfl) (by simp; omega) (by simp; omega) ?_
    rw [offset, copied _ _ le, List.drop_length, List.append_nil, List.drop_append_of_le_length le]
    dsimp only at few ⊢
    have first : (uc.buffer ++ stream.take rest.length).length = e.size := by
      rw [List.length_append, List.length_take_of_le le, cell.size, size]
    by_cases empty : (stream.drop rest.length).length = 0
    · rw [if_pos empty, if_pos (by rwa [List.length_drop] at empty)]
      exact ensures_pushlstring _ rfl first (.free rfl (.free rfl (.pure ⟨m, rfl, h, rfl⟩)))
    · rw [if_neg empty] at few
      rw [if_neg empty, if_neg (by rwa [List.length_drop] at empty)]
      refine .free (add_left_comm _ _ _) (.of_eq (s := m + ({(tmp, .bytes
        ((uc.buffer ++ stream.take rest.length).map some))} + r)) (by ac_rfl) ?_)
      rw [← List.length_drop]
      refine (pushMore_spec bounds few extra h).bind ?_
      rintro c' _ ⟨m₁, pushed, rfl⟩
      exact ensures_pushlstring _ (add_left_comm _ _ _) first (.free (add_left_comm _ _ _)
        (.pure ⟨m₁, rfl, pushed, rfl⟩))

theorem filterFresh_spec (h : Represents c q m) (bounds : q.InBounds) {stream : List UInt8}
    (nonempty : stream ≠ []) (few : (q.filterFresh fd stream).2.packets.length < 2 ^ 30)
    (extra : List UInt8) :
    Ensures (m + r) (filterFresh c fd (stream ++ extra) stream.length) fun result m' => ∃ m₁,
      result.1 = (q.filterFresh fd stream).1 ∧ Represents result.2 (q.filterFresh fd stream).2 m₁ ∧
      m' = m₁ + r := by
  match stream with
  | [header] =>
    refine (saveHeader_spec h fd header extra).bind ?_
    rintro c' _ ⟨m₁, saved, rfl⟩
    exact .pure ⟨m₁, rfl, saved, rfl⟩
  | hi :: lo :: buffer =>
    unfold filterFresh
    rw [if_neg (by simp)]
    refine readSize_spec ?_
    dsimp only [List.cons_append]
    rw [show (hi :: lo :: (buffer ++ extra)).drop 2 = buffer ++ extra from rfl,
      show (hi :: lo :: buffer).length - 2 = buffer.length from rfl]
    simp only [LuaNetpack.Queue.filterFresh] at few ⊢
    by_cases short : buffer.length < LuaNetpack.readSize hi lo
    · rw [if_pos short, if_pos short]
      refine (saveBody_spec h fd short extra).bind ?_
      rintro c' _ ⟨m₁, saved, rfl⟩
      exact .pure ⟨m₁, rfl, saved, rfl⟩
    · have fits := Nat.not_lt.mp short
      rw [if_neg short] at few
      rw [if_neg short, if_neg short]
      by_cases exactly : buffer.length = LuaNetpack.readSize hi lo
      · rw [if_pos exactly, if_pos exactly]
        refine .check (by simp) (.pure ⟨m, ?_, h, rfl⟩)
        rw [List.take_left]
      · rw [if_neg exactly] at few
        rw [if_neg exactly, if_neg exactly, List.take_append_of_le_length fits,
          List.drop_append_of_le_length fits, ← List.length_drop]
        refine .check (by simp; omega) ((pushMore_spec bounds few extra h).bind ?_)
        rintro c' _ ⟨m₁, pushed, rfl⟩
        exact .pure ⟨m₁, rfl, pushed, rfl⟩

/-- `filter_data` on the first bytes of its input. -/
theorem filterData_spec (h : Represents c q m) (valid : q.Valid) {stream : List UInt8}
    (few : (q.filterData fd stream).2.packets.length < 2 ^ 30) (extra : List UInt8) :
    Ensures (m + r) (filterData c fd (stream ++ extra) stream.length) fun result m' => ∃ m₁,
      result.1 = (q.filterData fd stream).1 ∧ Represents result.2 (q.filterData fd stream).2 m₁ ∧
      m' = m₁ + r := by
  unfold filterData
  unfold LuaNetpack.Queue.filterData at few ⊢
  by_cases empty : stream.length = 0
  · rw [if_pos empty, if_pos empty]
    exact .pure ⟨m, rfl, h, rfl⟩
  · have nonempty : stream ≠ [] := fun eq => empty (by rw [eq]; rfl)
    rw [if_neg empty] at few
    rw [if_neg empty, if_neg empty]
    refine (findUncomplete_spec h fd).bind ?_
    rintro _ m' (⟨none, rfl, rfl⟩ | ⟨uc, q', p, c', m₁, foot, found, rfl, h', taken, rfl⟩)
    · rw [none] at few ⊢
      exact filterFresh_spec h valid.bounds nonempty few extra
    · rw [found] at few ⊢
      obtain ⟨uc', stream', completed⟩ : ∃ uc' stream',
          LuaNetpack.Queue.completeHeader uc stream = (uc', stream') := ⟨_, _, rfl⟩
      dsimp only at few ⊢
      rw [completed] at few ⊢
      rcases LuaNetpack.Queue.findUncomplete_spec valid fd with
        ⟨none, -⟩ | ⟨uc'', q'', found', id, entry, -, receives⟩
      · rw [none] at found
        cases found
      · rw [found'] at found
        cases found
        obtain ⟨-, read, fits, -, -⟩ :=
          LuaNetpack.Queue.completeHeader_spec entry nonempty completed
        refine .of_eq (add_left_comm _ _ _)
          ((completeHeader_spec taken nonempty extra completed).bind ?_)
        rintro _ _ ⟨foot', rfl, taken', rfl⟩
        exact .of_eq (add_left_comm _ _ _)
          (fill_spec h' receives.valid.bounds taken' read fits few extra)

end Filter

/-! ### The other functions -/

section Functions

variable {c : Queue} {q : LuaNetpack.Queue} {m r : Multiset (Nat × Block)}

theorem lclose_spec (h : Represents c q m) (fd : Int32) :
    Ensures (m + r) (lclose c fd) fun c' m' => ∃ m₁, Represents c' (q.lclose fd) m₁ ∧
      m' = m₁ + r := by
  unfold lclose LuaNetpack.Queue.lclose
  refine (findUncomplete_spec h fd).bind ?_
  rintro _ m' (⟨none, rfl, rfl⟩ | ⟨uc, q', p, c', m₁, foot, found, rfl, h', taken, rfl⟩)
  · rw [none]
    exact .pure ⟨m, h, rfl⟩
  · obtain ⟨e, buffer, cell, rfl⟩ := taken
    rw [found]
    refine ensures_uncomplete (u := e) (r := buffer + (m₁ + r)) (by ac_rfl)
      (.of_eq (s := buffer + ({(p, .uncomplete e)} + (m₁ + r))) (by ac_rfl) ?_)
    exact ensures_freeBuffer cell.buffer (.free rfl (.pure ⟨m₁, h', rfl⟩))

theorem Packets.length_le {slots : List (Option Netpack)} {nps : List LuaNetpack.Netpack}
    (packets : Packets slots nps m) : nps.length ≤ m.card := by
  induction packets with
  | nil => exact Nat.le_refl 0
  | cons _ _ ih =>
    rw [List.length_cons, Multiset.card_add, Multiset.card_singleton]
    omega

theorem Packets.front {slot : Option Netpack} {slots : List (Option Netpack)}
    {np : LuaNetpack.Netpack} {nps : List LuaNetpack.Netpack}
    (packets : Packets (slot :: slots) (np :: nps) m) :
    ∃ buffer m₁, slot = some ⟨np.id, np.size, buffer⟩ ∧ np.buffer.length = np.size ∧
      Packets slots nps m₁ ∧ m = {(buffer, .bytes (np.buffer.map some))} + m₁ := by
  cases packets with
  | cons size packets => exact ⟨_, _, rfl, size, packets, rfl⟩

theorem next_eq (cap i : Nat) : (if i + 1 ≥ cap then 0 else i + 1) = Ring.next cap i := by
  unfold Ring.next
  split <;> split <;> omega

theorem lpop_spec (h : Represents c q m) (bounds : q.InBounds) :
    Ensures (m + r) (call c .pop) fun result m' => ∃ m₁, result.1 = (answer q .pop).1 ∧
      Represents result.2 (answer q .pop).2 m₁ ∧ m' = m₁ + r := by
  unfold call answer lpop LuaNetpack.Queue.lpop
  rw [h.head, h.tail]
  by_cases empty : q.head = q.tail
  · rw [if_pos empty, if_pos empty, pure_bind]
    exact .pure ⟨m, rfl, h, rfl⟩
  · obtain ⟨slot, packets, chains, ring, hash, rfl⟩ := h.blocks
    rw [Ring.content_pop _ bounds.head bounds.tail empty,
      Ring.content_pop _ bounds.head bounds.tail empty] at ring
    obtain ⟨buffer, packets, front, size, others, rfl⟩ := ring.front
    rw [if_neg empty, if_neg empty, bind_assoc, h.cap, next_eq]
    refine ensures_netpack (add_assoc _ _ _) bounds.head front ?_
    simp only [bind_assoc, pure_bind]
    generalize sum : ∑ i, chains i = entries
    refine ensures_pushlstring _ (r := {(c.queue, .netpacks q.cap slot)} + (packets + entries) + r)
      (by ac_rfl) size (.free (r := {(c.queue, .netpacks q.cap slot)} + (packets + entries) + r)
        (by ac_rfl) (.pure ⟨_, ?_, ⟨rfl, rfl, rfl, slot, packets, chains, others, hash, rfl⟩,
          by rw [sum]⟩))
    rw [← size, List.take_length]

theorem clearHash_spec {ucs : Fin hashSize → List LuaNetpack.Uncomplete}
    {chains : Fin hashSize → Multiset (Nat × Block)}
    (hash : ∀ i, Chain (c.hash i) (ucs i) (chains i)) :
    Ensures ((∑ i, chains i) + r) (clearHash c) fun _ m' => m' = r := by
  rw [Fin.sum_univ_def, clearHash]
  induction List.finRange hashSize with
  | nil => exact .pure (zero_add r)
  | cons i slots ih =>
    rw [List.map_cons, List.sum_cons, List.forM_cons, add_assoc]
    refine (clearList_spec (hash i)).bind ?_
    rintro _ _ rfl
    exact ih

theorem clearQueue_spec {slot : Nat → Option Netpack} {nps : List LuaNetpack.Netpack}
    {packets : Multiset (Nat × Block)} (head : c.head < c.cap) (tail : c.tail < c.cap)
    (ring : Packets (Ring.content slot c.cap c.head c.tail) nps packets) :
    Ensures ({(c.queue, .netpacks c.cap slot)} + (packets + r)) (clearQueue c) fun _ m' =>
      m' = {(c.queue, .netpacks c.cap slot)} + r := by
  refine .loop (I := fun k c' m' => c'.queue = c.queue ∧ c'.cap = c.cap ∧ c'.tail = c.tail ∧
      c'.head < c.cap ∧ ∃ nps packets,
        Packets (Ring.content slot c.cap c'.head c.tail) nps packets ∧ k = nps.length ∧
        m' = {(c.queue, .netpacks c.cap slot)} + (packets + r))
    ⟨rfl, rfl, rfl, head, nps, packets, ring, rfl, rfl⟩ ?_ ?_
  · have le := ring.length_le
    rw [Multiset.card_add, Multiset.card_add]
    omega
  rintro _ c' _ ⟨queue, cap, same_tail, head, nps, packets, ring, rfl, rfl⟩
  by_cases empty : c'.head = c.tail
  · rw [empty, Ring.content_nil] at ring
    cases ring
    rw [if_pos (empty.trans same_tail.symm), zero_add]
    exact .pure rfl
  · rw [Ring.content_pop _ head tail empty] at ring
    cases nps with
    | nil =>
      generalize slot c'.head = front at ring
      cases ring
    | cons np nps =>
      obtain ⟨buffer, packets, front, -, others, rfl⟩ := ring.front
      rw [if_neg fun eq => empty (eq.trans same_tail), queue, cap, next_eq]
      exact ensures_netpack rfl head front (.free (r := {(c.queue, .netpacks c.cap slot)} +
        (packets + r)) (by ac_rfl) (.pure ⟨nps.length, Nat.lt_succ_self _, rfl, rfl, same_tail,
          Ring.next_lt head, nps, packets, others, rfl, rfl⟩))

/-- `lclear` and `lgc` free the entries and the packets. -/
theorem clear_spec {γ : Type} {S : γ → Multiset (Nat × Block) → Prop} {rest : Prog γ}
    (h : Represents c q m) (bounds : q.InBounds)
    (next : ∀ slot, Ensures ({(c.queue, .netpacks c.cap slot)} + r) rest S) :
    Ensures (m + r) (do clearHash c; clearQueue c; rest) S := by
  obtain ⟨slot, packets, chains, ring, hash, rfl⟩ := h.blocks
  have head := bounds.head
  have tail := bounds.tail
  rw [← h.cap, ← h.head, ← h.tail] at ring
  rw [← h.cap, ← h.head] at head
  rw [← h.cap, ← h.tail] at tail
  refine .of_eq (s := (∑ i, chains i) + ({(c.queue, .netpacks q.cap slot)} + (packets + r))) ?_
    ((clearHash_spec hash).bind ?_)
  · generalize ∑ i, chains i = entries
    ac_rfl
  rintro _ _ rfl
  rw [← h.cap]
  refine (clearQueue_spec head tail ring).bind ?_
  rintro _ _ rfl
  exact next slot

theorem represents_empty {slot : Nat → Option Netpack} (cap : c.cap = q.cap)
    (head : c.head = q.head) (tail : c.tail = q.tail) (empty : q.head = q.tail)
    (heads : ∀ i, c.hash i = none) (chains : ∀ i, q.hash i = []) :
    Represents c q {(c.queue, .netpacks q.cap slot)} := by
  have sum : ∑ i : Fin hashSize, (fun _ => 0 : Fin hashSize → Multiset (Nat × Block)) i = 0 :=
    Finset.sum_eq_zero fun _ _ => rfl
  refine ⟨cap, head, tail, slot, 0, fun _ => 0, ?_, fun i => ?_, ?_⟩
  · rw [empty, Ring.content_nil, Ring.content_nil]
    exact .nil
  · rw [heads, chains]
    exact .nil
  · rw [sum, add_zero, add_zero]

theorem lclear_spec (h : Represents c q m) (bounds : q.InBounds) :
    Ensures (m + r) (lclear c) fun c' m' => ∃ m₁, Represents c' q.lclear m₁ ∧ m' = m₁ + r := by
  unfold lclear
  refine clear_spec h bounds fun slot => ?_
  have cleared : Represents { c with hash := fun _ => none, head := 0, tail := 0 } q.lclear
      {(c.queue, .netpacks q.cap slot)} :=
    represents_empty h.cap rfl rfl rfl (fun _ => rfl) fun _ => rfl
  refine .pure ⟨_, cleared, ?_⟩
  rw [h.cap]

theorem lgc_spec (h : Represents c q m) (bounds : q.InBounds) :
    Ensures (m + r) (lgc c) fun _ m' => m' = r := by
  unfold lgc
  exact clear_spec h bounds fun _ => .last (.free rfl (.pure rfl))

theorem lcreate_spec : Ensures r lcreate fun c m' => ∃ m₁, Represents c .lcreate m₁ ∧
    m' = m₁ + r := by
  unfold lcreate
  refine .malloc fun queue => .pure ⟨{(queue, .netpacks queueSize fun _ => none)}, ?_, rfl⟩
  exact represents_empty (q := .lcreate) rfl rfl rfl rfl (fun _ => rfl) fun _ => rfl

theorem lpack_spec (msg : List UInt8) :
    Ensures r (lpack msg) fun result m' => result = LuaNetpack.lpack msg ∧ m' = r := by
  unfold lpack LuaNetpack.lpack
  by_cases long : msg.length ≥ 0x10000
  · rw [if_pos long, if_pos long]
    exact .pure ⟨rfl, rfl⟩
  · rw [if_neg long, if_neg long]
    generalize UInt8.ofNat (msg.length >>> 8) = hi
    generalize UInt8.ofNat (msg.length &&& 0xff) = lo
    refine .malloc fun buffer => ensures_memcpy rfl le_rfl (by simp) (ensures_memcpy rfl le_rfl
      (by simp) (ensures_memcpy rfl le_rfl (by simp; omega) ?_))
    refine ensures_pushlstring (hi :: lo :: msg) (r := r) ?_ rfl
      (.free rfl (.pure ⟨rfl, rfl⟩))
    simp [List.replicate_succ]
    omega

end Functions

/-! ### Runs -/

section Runs

variable {c : Queue} {q : LuaNetpack.Queue} {m r : Multiset (Nat × Block)}

theorem answer_valid (valid : q.Valid) (k : Call) : (answer q k).2.Valid := by
  cases k with
  | filter fd buff size =>
    have yields := LuaNetpack.Queue.filterData_yields valid fd (buff.take size)
    simp only [answer]
    generalize q.filterData fd (buff.take size) = result at yields
    obtain ⟨result, q'⟩ := result
    cases result with
    | none => exact yields.2.valid
    | data => exact yields.2.2.valid
    | more =>
      obtain ⟨_, _, _, receives⟩ := yields
      exact receives.valid
  | pop =>
    have spec := LuaNetpack.Queue.lpop_spec valid.bounds
    simp only [answer]
    generalize q.lpop = popped at spec
    cases popped with
    | none => exact valid
    | some popped =>
      obtain ⟨-, bounds, hash, -⟩ := spec
      exact ⟨bounds, fun i => by rw [hash]; exact valid.chains i⟩
  | close fd => exact (LuaNetpack.Queue.lclose_receives valid fd).valid
  | clear =>
    have room := (Nat.zero_le _).trans_lt valid.bounds.head
    exact ⟨⟨room, room⟩, fun _ => ⟨nofun, List.nodup_nil, nofun⟩⟩
  | pack => exact valid

/-- A call neither fails nor leaks, and returns what it returns without pointers. -/
theorem call_spec (h : Represents c q m) (valid : q.Valid) {k : Call} (inside : k.InBuffer)
    (few : (answer q k).2.packets.length < 2 ^ 30) :
    Ensures (m + r) (call c k) fun result m' => ∃ m₁, result.1 = (answer q k).1 ∧
      Represents result.2 (answer q k).2 m₁ ∧ m' = m₁ + r := by
  cases k with
  | filter fd buff size =>
    have parsed := filterData_spec (r := r) h valid few (buff.drop size)
    rw [List.take_append_drop, List.length_take_of_le inside] at parsed
    refine parsed.bind ?_
    rintro ⟨result, c'⟩ _ ⟨m₁, rfl, h', rfl⟩
    exact .pure ⟨m₁, rfl, h', rfl⟩
  | pop => exact lpop_spec h valid.bounds
  | close fd =>
    refine (lclose_spec h fd).bind ?_
    rintro c' _ ⟨m₁, h', rfl⟩
    exact .pure ⟨m₁, rfl, h', rfl⟩
  | clear =>
    refine (lclear_spec h valid.bounds).bind ?_
    rintro c' _ ⟨m₁, h', rfl⟩
    exact .pure ⟨m₁, rfl, h', rfl⟩
  | pack msg =>
    refine (lpack_spec msg).bind ?_
    rintro _ _ ⟨rfl, rfl⟩
    exact .pure ⟨m, rfl, h, rfl⟩

theorem answers_valid {cs : List Call} (valid : q.Valid) : (answers q cs).2.Valid := by
  induction cs generalizing q with
  | nil => exact valid
  | cons k cs ih => exact ih (answer_valid valid k)

theorem calls_spec {cs : List Call} (h : Represents c q m) (valid : q.Valid)
    (inside : ∀ k ∈ cs, k.InBuffer)
    (few : ∀ before, before <+: cs → (answers q before).2.packets.length < 2 ^ 30) :
    Ensures (m + r) (calls c cs) fun result m' => ∃ m₁, result.1 = (answers q cs).1 ∧
      Represents result.2 (answers q cs).2 m₁ ∧ m' = m₁ + r := by
  induction cs generalizing c q m with
  | nil => exact .pure ⟨m, rfl, h, rfl⟩
  | cons k cs ih =>
    have first := few [k] (List.prefix_append [k] cs)
    refine (call_spec h valid (inside k List.mem_cons_self) first).bind ?_
    rintro ⟨result, c'⟩ _ ⟨m₁, rfl, h', rfl⟩
    refine (ih h' (answer_valid valid k) (fun k' mem => inside k' (List.mem_cons_of_mem k mem))
      fun before le => few (k :: before) (List.prefix_cons_inj k |>.mpr le)).bind ?_
    rintro ⟨results, c''⟩ _ ⟨m₂, rfl, h'', rfl⟩
    exact .pure ⟨m₂, rfl, h'', rfl⟩

end Runs

end Starnet.LuaNetpack.Memory
