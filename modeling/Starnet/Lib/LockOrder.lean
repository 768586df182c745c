import Mathlib.Logic.Relation
import Starnet.Lib.Transition

/-! Locks over a transition system. Each step of the system belongs to some activities, which take
locks one after another before the step and give them back after it. A thread runs one or more
activities. When every lock that a thread asks for is above the locks that it holds, in an order
that may depend on the run, the wait-for relation has no cycle. -/

namespace LockOrder

open Transition

/-- A lock that is held or asked for; two holders may share it when both only read. -/
structure Claim (L : Type*) where
  lock : L
  shared : Bool := false
  deriving DecidableEq, Repr

/-- The two claims do not exclude each other. -/
def Claim.Compatible {L : Type*} (c c' : Claim L) : Prop :=
  c.lock = c'.lock → c.shared = true ∧ c'.shared = true

/-- How the activities of a transition system take locks, and which threads run them. -/
structure Discipline (σ α ι τ L : Type*) where
  base : System σ α
  /-- The activities that a step belongs to. -/
  movers : σ → α → σ → List ι → Prop
  /-- The lock that an activity takes for its next step after some others. -/
  next : σ → ι → List (Claim L) → Option (Claim L)
  /-- A lock that an activity holds between its steps. -/
  keeps : σ → ι → Claim L → Bool
  runs : σ → τ → ι → Prop

/-- A state with the locks that each activity has taken for its next step and those that it has
still to give back after its last one. -/
structure Locked (σ ι L : Type*) where
  base : σ
  got : ι → List (Claim L)
  left : ι → List (Claim L)

/-- The steps of the activities on their locks, and the steps of the system itself. -/
inductive LockEvent (α ι L : Type*)
  | acquire (i : ι) (c : Claim L)
  | commit (a : α) (is : List ι)
  | release (i : ι) (c : Claim L)

/-- The step of the system itself. -/
def LockEvent.base {α ι L : Type*} : LockEvent α ι L → Option α
  | commit a _ => some a
  | _ => none

variable {σ α ι τ L : Type*}

namespace Discipline

variable (d : Discipline σ α ι τ L)

/-- The activity has taken its locks, and given back the earlier ones. -/
def Ready (s : Locked σ ι L) (i : ι) : Prop :=
  s.left i = [] ∧ d.next s.base i (s.got i) = none

def Holds (s : Locked σ ι L) (i : ι) (c : Claim L) : Prop :=
  d.keeps s.base i c = true ∨ c ∈ s.got i ∨ c ∈ s.left i

def Wants (s : Locked σ ι L) (i : ι) (c : Claim L) : Prop :=
  s.left i = [] ∧ d.next s.base i (s.got i) = some c

/-- Thread `t` asks for a lock that thread `t'` holds, in whatever mode. -/
def WaitsFor (s : Locked σ ι L) (t t' : τ) : Prop :=
  ∃ i c j c', d.runs s.base t i ∧ d.Wants s i c ∧ d.runs s.base t' j ∧ d.Holds s j c' ∧
    c.lock = c'.lock

variable [DecidableEq ι]

/-- The state after a step of the activities `is` to `s'`. -/
def after (s : Locked σ ι L) (s' : σ) (is : List ι) : Locked σ ι L where
  base := s'
  got i := if i ∈ is then [] else s.got i
  left i := if i ∈ is then (s.got i).reverse.filter fun c => !d.keeps s' i c else s.left i

/-- A step of an activity on a lock, or a step of the system by activities that are ready. -/
inductive Step : Locked σ ι L → LockEvent α ι L → Locked σ ι L → Prop
  | acquire {s : Locked σ ι L} {i : ι} {c : Claim L} (wants : d.Wants s i c)
      (free : ∀ j c', d.Holds s j c' → c.Compatible c') :
      Step s (.acquire i c) { s with got := Function.update s.got i (s.got i ++ [c]) }
  | commit {s : Locked σ ι L} {a : α} {s' : σ} {is : List ι} (step : d.base.step s.base a s')
      (movers : d.movers s.base a s' is) (ready : ∀ i ∈ is, d.Ready s i) :
      Step s (.commit a is) (d.after s s' is)
  | release {s : Locked σ ι L} {i : ι} {c : Claim L} {rest : List (Claim L)}
      (left : s.left i = c :: rest) :
      Step s (.release i c) { s with left := Function.update s.left i rest }

/-- The state in which no activity has a lock beyond those that it keeps. -/
def idle (s : σ) : Locked σ ι L := ⟨s, fun _ => [], fun _ => []⟩

/-- The system under its locks. -/
def locked : System (Locked σ ι L) (LockEvent α ι L) where
  init s := d.base.init s.base ∧ s = idle s.base
  step := d.Step

variable {d} {s : Locked σ ι L} {tr : List (LockEvent α ι L)}

/-- Without its locks a run under locks is a run of the system. -/
theorem run_base (run : d.locked.Run s tr) : d.base.Run s.base (tr.filterMap LockEvent.base) := by
  induction run with
  | init h => exact .init h.1
  | step _ h ih =>
    rw [List.filterMap_append]
    cases h with
    | acquire | release => exact (List.append_nil _).symm ▸ ih
    | commit step => exact ih.step step

/-- The invariant rule for what one activity holds. A step of other activities may change the
state. -/
theorem run_invariant {P : σ → ι → List (Claim L) → List (Claim L) → Prop}
    (start : ∀ s i, d.base.init s → P s i [] [])
    (acquire : ∀ s i got c, P s i got [] → d.next s i got = some c → P s i (got ++ [c]) [])
    (commit : ∀ s a s' is i got, d.base.step s a s' → d.movers s a s' is → i ∈ is → P s i got [] →
      d.next s i got = none → P s' i [] (got.reverse.filter fun c => !d.keeps s' i c))
    (other : ∀ s a s' is i got left, d.base.step s a s' → d.movers s a s' is → i ∉ is →
      P s i got left → P s' i got left)
    (release : ∀ s i got c rest, P s i got (c :: rest) → P s i got rest)
    (run : d.locked.Run s tr) (i : ι) : P s.base i (s.got i) (s.left i) := by
  refine run.stateInvariant (P := fun s => P s.base i (s.got i) (s.left i)) ?_ ?_
  · rintro s ⟨init, eq⟩
    rw [eq]
    exact start _ i init
  · intro s e s' h step
    cases step with
    | @acquire j c wants =>
      by_cases same : i = j
      · subst same
        obtain ⟨none, next⟩ := wants
        rw [none] at h
        simpa [none] using acquire _ _ _ _ h next
      · simpa [Function.update_of_ne same] using h
    | @commit a s' is step movers ready =>
      by_cases mem : i ∈ is
      · obtain ⟨none, next⟩ := ready i mem
        rw [none] at h
        simpa [after, mem] using commit _ _ _ _ _ _ step movers mem h next
      · simpa [after, mem] using other _ _ _ _ _ _ _ step movers mem h
    | @release j c rest eq =>
      by_cases same : i = j
      · subst same
        rw [eq] at h
        simpa using release _ _ _ _ _ h
      · simpa [Function.update_of_ne same] using h

/-! ### Whole sections -/

/-- The locks that activity `i` takes for its next step, one after another. -/
def Takes (d : Discipline σ α ι τ L) (s : σ) (i : ι) (cs : List (Claim L)) : Prop :=
  ∀ m, m ≤ cs.length → d.next s i (cs.take m) = cs[m]?

/-- The locks that an activity takes while no other one has any. -/
theorem run_acquire {s : σ} {i : ι} {cs : List (Claim L)} (run : d.locked.Run (idle s) tr)
    (takes : d.Takes s i cs) (free : ∀ c ∈ cs, ∀ j c', d.keeps s j c' = true → c.Compatible c')
    (apart : cs.Pairwise fun c c' => c'.Compatible c) {m : Nat} (le : m ≤ cs.length) :
    ∃ tr', d.locked.Run ⟨s, Function.update (fun _ => []) i (cs.take m), fun _ => []⟩ tr' ∧
      tr'.filterMap LockEvent.base = tr.filterMap LockEvent.base := by
  induction m with
  | zero =>
    refine ⟨tr, ?_, rfl⟩
    rwa [List.take_zero, Function.update_eq_self i (fun _ => [])]
  | succ m ih =>
    obtain ⟨tr', before, same⟩ := ih (by omega)
    have lt : m < cs.length := le
    have next := takes m lt.le
    rw [List.getElem?_eq_getElem lt] at next
    have mine : ∀ j c', c' ∈ Function.update (fun _ => []) i (cs.take m) j → c' ∈ cs.take m := by
      intro j c' mem
      by_cases same : j = i
      · subst same
        rwa [Function.update_self] at mem
      · rw [Function.update_of_ne same] at mem
        cases mem
    have step := before.step (.acquire (d := d) (i := i) (c := cs[m])
      ⟨rfl, by simpa using next⟩ ?_)
    · refine ⟨tr' ++ [.acquire i cs[m]], ?_, ?_⟩
      · convert step using 1
        simp
      · rw [List.filterMap_append, same]
        exact List.append_nil _
    · rintro j c' (kept | got | left)
      · exact free _ (List.getElem_mem _) j c' kept
      · have parts := apart
        rw [← List.take_append_drop m cs, List.pairwise_append] at parts
        exact parts.2.2 c' (mine j c' got) _ (List.mem_drop_iff_getElem.mpr ⟨0, by simpa, by simp⟩)
      · cases left

/-- The locks that an activity gives back. -/
theorem run_release {s : σ} {i : ι} {cs : List (Claim L)}
    (run : d.locked.Run ⟨s, fun _ => [], Function.update (fun _ => []) i cs⟩ tr) :
    ∃ tr', d.locked.Run (idle s) tr' ∧
      tr'.filterMap LockEvent.base = tr.filterMap LockEvent.base := by
  induction cs generalizing tr with
  | nil =>
    rw [Function.update_eq_self i (fun _ => [])] at run
    exact ⟨tr, run, rfl⟩
  | cons c cs ih =>
    have first : (⟨s, fun _ => [], Function.update (fun _ => []) i (c :: cs)⟩ :
        Locked σ ι L).left i = c :: cs := Function.update_self i (c :: cs) (fun _ => [])
    have step := run.step (.release (d := d) first)
    rw [Function.update_idem] at step
    obtain ⟨tr', run', same⟩ := ih step
    refine ⟨tr', run', same.trans ?_⟩
    rw [List.filterMap_append]
    exact List.append_nil _

/-- A step by activities that take no lock. -/
theorem run_commit {s s' : σ} {a : α} {is : List ι} (run : d.locked.Run (idle s) tr)
    (step : d.base.step s a s') (movers : d.movers s a s' is)
    (none : ∀ j ∈ is, d.next s j [] = none) :
    ∃ tr', d.locked.Run (idle s') tr' ∧
      tr'.filterMap LockEvent.base = tr.filterMap LockEvent.base ++ [a] := by
  have committed := run.step (.commit (d := d) step movers fun j mem => ⟨rfl, none j mem⟩)
  refine ⟨tr ++ [.commit a is], ?_, ?_⟩
  · convert committed using 1
    simp [after, idle]
  · rw [List.filterMap_append]
    rfl

/-- A step by an activity whose locks nobody keeps, and by others that take none. -/
theorem run_section {s s' : σ} {a : α} {i : ι} {is : List ι} {cs : List (Claim L)}
    (run : d.locked.Run (idle s) tr) (step : d.base.step s a s') (movers : d.movers s a s' is)
    (takes : d.Takes s i cs) (others : ∀ j ∈ is, j ≠ i → d.next s j [] = none)
    (free : ∀ c ∈ cs, ∀ j c', d.keeps s j c' = true → c.Compatible c')
    (apart : cs.Pairwise fun c c' => c'.Compatible c) (mem : i ∈ is) :
    ∃ tr', d.locked.Run (idle s') tr' ∧
      tr'.filterMap LockEvent.base = tr.filterMap LockEvent.base ++ [a] := by
  obtain ⟨tr₁, taken, same₁⟩ := run_acquire run takes free apart le_rfl
  have committed := taken.step (.commit (d := d) step movers ?_)
  · have given : d.locked.Run ⟨s', fun _ => [], Function.update (fun _ => []) i
        (cs.reverse.filter fun c => !d.keeps s' i c)⟩ (tr₁ ++ [.commit a is]) := by
      convert committed using 1
      simp only [after, List.take_length]
      congr 1 <;>
      · funext j
        by_cases same : j = i
        · subst same
          simp [mem]
        · simp [Function.update_of_ne same]
    obtain ⟨tr₂, back, same₂⟩ := run_release given
    refine ⟨tr₂, back, ?_⟩
    rw [same₂, List.filterMap_append, same₁]
    rfl
  · intro j member
    refine ⟨rfl, ?_⟩
    by_cases same : j = i
    · subst same
      have done := takes cs.length le_rfl
      simpa using done
    · simpa [Function.update_of_ne same] using others j member same

/-! ### Waiting -/

variable {P : Type*} [Preorder P] {rank : L → P}

/-- The locks that a thread asks for are above those that it holds. -/
def Ordered (d : Discipline σ α ι τ L) (s : Locked σ ι L) (rank : L → P) : Prop :=
  ∀ t i j c c', d.runs s.base t i → d.runs s.base t j → d.Holds s i c → d.Wants s j c' →
    rank c.lock < rank c'.lock

omit [DecidableEq ι] in
/-- When the locks are taken in an order, no chain of waiting threads comes back to its start, and
in particular no thread waits for itself. -/
theorem Ordered.acyclic (ordered : d.Ordered s rank) (t : τ) :
    ¬ Relation.TransGen (d.WaitsFor s) t t := by
  -- along a chain every lock that its end asks for is above some lock that its start asks for
  have climbs : ∀ t t', Relation.TransGen (d.WaitsFor s) t t' →
      ∃ i c, d.runs s.base t i ∧ d.Wants s i c ∧
        ∀ j c', d.runs s.base t' j → d.Wants s j c' → rank c.lock < rank c'.lock := by
    intro t t' chain
    induction chain with
    | single waits =>
      obtain ⟨i, c, j, c', runs, wants, runs', holds, same⟩ := waits
      refine ⟨i, c, runs, wants, fun j' c'' runs'' wants' => ?_⟩
      rw [same]
      exact ordered _ _ _ _ _ runs' runs'' holds wants'
    | tail _ waits ih =>
      obtain ⟨i, c, runs, wants, above⟩ := ih
      obtain ⟨j, c', j', c'', runs', wants', runs'', holds, same⟩ := waits
      refine ⟨i, c, runs, wants, fun k c₃ runs₃ wants₃ => ?_⟩
      have higher := ordered _ _ _ _ _ runs'' runs₃ holds wants₃
      rw [← same] at higher
      exact (above j c' runs' wants').trans higher
  intro cycle
  obtain ⟨i, c, runs, wants, above⟩ := climbs t t cycle
  exact lt_irrefl _ (above i c runs wants)

end Discipline

end LockOrder
