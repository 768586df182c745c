import Mathlib.Algebra.Order.Group.Multiset
import Mathlib.Data.Finset.Card
import Mathlib.Data.Multiset.Bind
import Mathlib.Logic.Function.Basic

/-! Programs that allocate and free blocks. A program fails when it loads, stores or frees a block
that is not allocated. `Ensures m c Q` says that `c` ends without a failure on a heap whose blocks
are those of `m`, and that `Q` holds of its result and of the blocks it leaves. -/

/-- A heap: the blocks that are allocated, and the first pointer that was not given out. -/
structure Heap (β : Type) where
  block : Nat → Option β
  fresh : Nat

namespace Heap

variable {α β γ σ : Type}

def empty : Heap β := ⟨fun _ => none, 0⟩

/-- The heap with another content of block `p`, or without it. -/
def put (h : Heap β) (p : Nat) (b : Option β) : Heap β :=
  { h with block := Function.update h.block p b }

/-- A program on a heap. `none` is a failure or a program that does not end. -/
abbrev Prog (β α : Type) := StateT (Heap β) Option α

def malloc (b : β) : Prog β Nat := fun h =>
  some (h.fresh, { h.put h.fresh (some b) with fresh := h.fresh + 1 })

def load (p : Nat) : Prog β β := fun h => (h.block p).map (·, h)

def store (p : Nat) (b : β) : Prog β Unit := fun h =>
  (h.block p).map fun _ => ((), h.put p (some b))

def free (p : Nat) : Prog β Unit := fun h => (h.block p).map fun _ => ((), h.put p none)

/-- A value that has to be there. -/
def get (x : Option α) : Prog β α := fun h => x.map (·, h)

/-- A condition that has to hold. -/
def check (p : Prop) [Decidable p] : Prog β Unit := fun h => if p then some ((), h) else none

/-- A loop that goes on with a state or ends with a result, cut off after `n` rounds. -/
def iterate (step : σ → Prog β (σ ⊕ α)) : Nat → σ → Prog β α
  | 0, _ => fun _ => none
  | n + 1, s => step s >>= Sum.elim (iterate step n) pure

/-- A loop that visits a block in each round: with more rounds than there are pointers it is in a
cycle and does not end. -/
def loop (step : σ → Prog β (σ ⊕ α)) (s : σ) : Prog β α := fun h =>
  iterate step (h.fresh + 1) s h

/-! ### The blocks of a heap -/

/-- The blocks that are allocated are those of `m`, each once. -/
structure Holds (h : Heap β) (m : Multiset (Nat × β)) : Prop where
  nodup : (m.map Prod.fst).Nodup
  block : ∀ p b, h.block p = some b ↔ (p, b) ∈ m
  fresh : ∀ x ∈ m, x.1 < h.fresh

namespace Holds

variable {h : Heap β} {m : Multiset (Nat × β)} {p : Nat} {b : β}

theorem empty : Holds (β := β) Heap.empty 0 :=
  ⟨Multiset.nodup_zero, fun _ _ => ⟨nofun, fun mem => absurd mem (Multiset.notMem_zero _)⟩,
    fun _ mem => absurd mem (Multiset.notMem_zero _)⟩

theorem block_none (holds : Holds h 0) (p : Nat) : h.block p = none := by
  cases there : h.block p with
  | none => rfl
  | some b => exact absurd ((holds.block p b).mp there) (Multiset.notMem_zero _)

theorem load (holds : Holds h ({(p, b)} + m)) : h.block p = some b :=
  (holds.block p b).mpr (Multiset.mem_add.mpr (.inl (Multiset.mem_singleton_self _)))

/-- The other blocks have other pointers. -/
theorem ne (holds : Holds h ({(p, b)} + m)) {x : Nat × β} (mem : x ∈ m) : x.1 ≠ p := by
  have nodup := holds.nodup
  rw [Multiset.singleton_add, Multiset.map_cons, Multiset.nodup_cons] at nodup
  intro same
  have again := Multiset.mem_map_of_mem Prod.fst mem
  rw [same] at again
  exact nodup.1 again

theorem remove (holds : Holds h ({(p, b)} + m)) : Holds (h.put p none) m := by
  have nodup := holds.nodup
  rw [Multiset.singleton_add, Multiset.map_cons, Multiset.nodup_cons] at nodup
  refine ⟨nodup.2, fun p' b' => ?_,
    fun x mem => holds.fresh x (Multiset.mem_add.mpr (.inr mem))⟩
  by_cases same : p' = p
  · subst same
    simp only [put, Function.update_self]
    exact ⟨nofun, fun mem => absurd rfl (holds.ne mem)⟩
  · simp only [put, Function.update_of_ne same]
    rw [holds.block, Multiset.singleton_add, Multiset.mem_cons]
    exact ⟨fun mem => mem.resolve_left fun eq => same (congrArg Prod.fst eq), .inr⟩

/-- A block at a pointer that no other block has. -/
theorem insert (holds : Holds h m) {fresh : Nat} (unused : ∀ x ∈ m, x.1 ≠ p) (lt : p < fresh)
    (le : h.fresh ≤ fresh) : Holds { h.put p (some b) with fresh } ({(p, b)} + m) := by
  rw [Multiset.singleton_add]
  refine ⟨?_, fun p' b' => ?_, fun x mem => ?_⟩
  · rw [Multiset.map_cons, Multiset.nodup_cons]
    refine ⟨fun mem => ?_, holds.nodup⟩
    obtain ⟨x, mem, same⟩ := Multiset.mem_map.mp mem
    exact unused x mem same
  · by_cases same : p' = p
    · subst same
      simp only [put, Function.update_self, Multiset.mem_cons, Prod.mk.injEq, true_and,
        Option.some.injEq]
      exact ⟨fun eq => .inl eq.symm,
        fun mem => (mem.resolve_right fun mem => unused _ mem rfl).symm⟩
    · simp only [put, Function.update_of_ne same, Multiset.mem_cons, Prod.mk.injEq, same, false_and,
        false_or]
      exact holds.block p' b'
  · rcases Multiset.mem_cons.mp mem with rfl | mem
    · exact lt
    · exact (holds.fresh x mem).trans_le le

theorem card_le (holds : Holds h m) : m.card ≤ h.fresh := by
  rw [← Multiset.card_map Prod.fst, ← Multiset.toFinset_card_of_nodup holds.nodup,
    ← Finset.card_range h.fresh]
  refine Finset.card_le_card fun p pointer => ?_
  obtain ⟨x, mem, rfl⟩ := Multiset.mem_map.mp (Multiset.mem_toFinset.mp pointer)
  exact Finset.mem_range.mpr (holds.fresh x mem)

theorem malloc (holds : Holds h m) (b : β) :
    Holds { h.put h.fresh (some b) with fresh := h.fresh + 1 } ({(h.fresh, b)} + m) :=
  holds.insert (fun x mem => (holds.fresh x mem).ne) (Nat.lt_succ_self _) (Nat.le_succ _)

theorem store (holds : Holds h ({(p, b)} + m)) (b' : β) :
    Holds (h.put p (some b')) ({(p, b')} + m) := by
  have twice : h.put p (some b') =
      { (h.put p none).put p (some b') with fresh := h.fresh } := by
    simp only [Heap.put, Function.update_idem]
  rw [twice]
  exact holds.remove.insert (fun x mem => holds.ne mem)
    (holds.fresh (p, b) (Multiset.mem_add.mpr (.inl (Multiset.mem_singleton_self _)))) le_rfl

end Holds

/-! ### Programs -/

/-- On a heap with the blocks `m`, the program ends without a failure, with a result and with blocks
of which `Q` holds. -/
def Ensures (m : Multiset (Nat × β)) (c : Prog β α) (Q : α → Multiset (Nat × β) → Prop) : Prop :=
  ∀ h, Holds h m → ∃ a h' m', c h = some (a, h') ∧ Holds h' m' ∧ Q a m'

namespace Ensures

variable {m r s : Multiset (Nat × β)} {c : Prog β α} {f : α → Prog β γ} {p : Nat} {b : β}
  {Q : α → Multiset (Nat × β) → Prop} {S : γ → Multiset (Nat × β) → Prop}

theorem pure {a : α} (h : Q a m) : Ensures m (Pure.pure a : Prog β α) Q :=
  fun h' holds => ⟨a, h', m, rfl, holds, h⟩

theorem bind (first : Ensures m c Q) (next : ∀ a m', Q a m' → Ensures m' (f a) S) :
    Ensures m (c >>= f) S := by
  intro h holds
  obtain ⟨a, h', m', ran, holds', q⟩ := first h holds
  obtain ⟨a', h'', m'', ran', holds'', s⟩ := next a m' q h' holds'
  refine ⟨a', h'', m'', ?_, holds'', s⟩
  show (c h).bind _ = _
  rw [ran]
  exact ran'

/-- The blocks in another order. -/
theorem of_eq (same : m = s) (ensures : Ensures s c Q) : Ensures m c Q := same ▸ ensures

/-- The last step of a program. -/
theorem last (ensures : Ensures m (c >>= Pure.pure) Q) : Ensures m c Q := by
  rwa [bind_pure] at ensures

theorem malloc {b : β} {g : Nat → Prog β γ} (next : ∀ p, Ensures ({(p, b)} + m) (g p) S) :
    Ensures m (Heap.malloc b >>= g) S := by
  refine bind (Q := fun p m' => m' = {(p, b)} + m) ?_ fun p m' eq => ?_
  · exact fun h holds => ⟨h.fresh, _, _, rfl, holds.malloc b, rfl⟩
  · exact eq ▸ next p

theorem load {g : β → Prog β γ} (here : m = {(p, b)} + r) (next : Ensures m (g b) S) :
    Ensures m (Heap.load p >>= g) S := by
  refine bind (Q := fun b' m' => b' = b ∧ m' = m) ?_ ?_
  · intro h holds
    have there := holds
    rw [here] at there
    refine ⟨b, h, _, ?_, holds, rfl, rfl⟩
    rw [Heap.load, there.load]
    rfl
  · rintro _ _ ⟨rfl, rfl⟩
    exact next

theorem store {b' : β} {g : Unit → Prog β γ} (here : m = {(p, b)} + r)
    (next : Ensures ({(p, b')} + r) (g ()) S) : Ensures m (Heap.store p b' >>= g) S := by
  subst here
  refine bind (Q := fun _ m' => m' = {(p, b')} + r) ?_ ?_
  · intro h holds
    refine ⟨(), _, _, ?_, holds.store b', rfl⟩
    rw [Heap.store, holds.load]
    rfl
  · rintro _ _ rfl
    exact next

theorem free {g : Unit → Prog β γ} (here : m = {(p, b)} + r) (next : Ensures r (g ()) S) :
    Ensures m (Heap.free p >>= g) S := by
  subst here
  refine bind (Q := fun _ m' => m' = r) ?_ ?_
  · intro h holds
    refine ⟨(), _, _, ?_, holds.remove, rfl⟩
    rw [Heap.free, holds.load]
    rfl
  · rintro _ _ rfl
    exact next

theorem get {x : Option α} {a : α} (there : x = some a) (next : Ensures m (f a) S) :
    Ensures m (Heap.get x >>= f) S := by
  refine bind (Q := fun a' m' => a' = a ∧ m' = m) ?_ ?_
  · exact fun h holds => ⟨a, h, m, by rw [there]; rfl, holds, rfl, rfl⟩
  · rintro _ _ ⟨rfl, rfl⟩
    exact next

theorem check {P : Prop} [Decidable P] {g : Unit → Prog β γ} (holds : P)
    (next : Ensures m (g ()) S) : Ensures m (Heap.check P >>= g) S := by
  refine bind (Q := fun _ m' => m' = m) ?_ ?_
  · exact fun h holds' => ⟨(), h, m, if_pos holds, holds', rfl⟩
  · rintro _ _ rfl
    exact next

section Loop

variable {step : σ → Prog β (σ ⊕ α)} {I : Nat → σ → Multiset (Nat × β) → Prop} {s : σ} {k n : Nat}

theorem iterate (start : I k s m) (lt : k < n)
    (next : ∀ {k s m}, I k s m →
      Ensures m (step s) (Sum.elim (fun s' m' => ∃ k' < k, I k' s' m') Q)) :
    Ensures m (Heap.iterate step n s) Q := by
  induction n generalizing k s m with
  | zero => exact absurd lt (Nat.not_lt_zero k)
  | succ n ih =>
    refine (next start).bind ?_
    rintro (s' | a) m' post
    · obtain ⟨k', lt', inv⟩ := post
      exact ih inv (lt'.trans_le (Nat.lt_succ_iff.mp lt))
    · exact .pure post

/-- The rule of loops: each round keeps `I` and makes the variant `k` smaller, or ends with the
postcondition. The variant starts with at most the number of blocks. -/
theorem loop (start : I k s m) (le : k ≤ m.card)
    (next : ∀ {k s m}, I k s m →
      Ensures m (step s) (Sum.elim (fun s' m' => ∃ k' < k, I k' s' m') Q)) :
    Ensures m (Heap.loop step s) Q := fun h holds =>
  iterate start (Nat.lt_succ_of_le (le.trans holds.card_le)) next h holds

end Loop

end Ensures

end Heap
