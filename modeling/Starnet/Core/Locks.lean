import Starnet.Core.Final
import Starnet.Core.Registry
import Starnet.Core.Turn
import Starnet.Lib.LockOrder

/-! The locks of the messaging core. `TryEnterGlobal` and `FinishDispatch` take a second lock under
the first one, and `Clear` keeps the queue lock of a dying service while `dropMessage` calls `Send`
for each message. A service that `Send` finds then has not exited yet, so the queue locks are taken
in the order in which the services exit. -/

namespace Starnet.Core

open Transition LockOrder

variable {n : Nat} {σ σ' : State n} {tr : List (Event n)} {e : Event n} {r : ServiceRef}

/-- `servicesLock`, the `queueLock` and the `inGlobalLock` of a service, and the lock of the global
queue. -/
inductive Lock
  | services
  | queue (srv : ServiceRef)
  | inGlobal (srv : ServiceRef)
  | global
  deriving DecidableEq, Repr

/-- What takes locks: a worker, a call of `Send` or `KillService`, the main thread, and a call of
`NewService`. -/
inductive Activity (n : Nat)
  | worker (w : Fin n)
  | call (k : Nat)
  | main
  | creator (j : Nat)
  deriving DecidableEq, Repr

/-! ### The locks of a step -/

/-- The first lock of the next step of a worker. `Length` is called for a weight of at least 0. -/
def WorkerPc.firstLock (weight : Int) : WorkerPc → Option (Claim Lock)
  | popGlobal => some { lock := .global }
  | readLength srv => if 0 ≤ weight then some { lock := .queue srv } else none
  | process srv (_ + 1) | readOverload srv _ _ | finish srv | onExit srv =>
    some { lock := .queue srv }
  | _ => none

/-- The first lock of the next step of a call. `GetService` only reads the map. -/
def CallPc.firstLock : CallPc → Option (Claim Lock)
  | sendGet _ _ | killGet _ => some { lock := .services, shared := true }
  | killErase _ _ => some { lock := .services }
  | sendPush srv _ => some { lock := .queue srv }
  | sendEnter srv | killRead srv | killEnter srv => some { lock := .inGlobal srv }
  | wakeLength _ => some { lock := .global }
  | _ => none

/-- The service whose queue a worker is in `Clear` on. -/
def WorkerPc.clearing : WorkerPc → Option ServiceRef
  | clear srv | clearSend srv _ => some srv
  | _ => none

namespace State

/-- The first lock of the next step of an activity. The main thread comes to `KillAllServices`, and
`NewService` may be called at any time. -/
def firstLock (σ : State n) : Activity n → Option (Claim Lock)
  | .worker w => (σ.worker w).firstLock (weight w)
  | .call k => (σ.call k).firstLock
  | .main => if σ.main = .waiting then some { lock := .services, shared := true } else none
  | .creator _ => some { lock := .services }

/-- The lock that is taken under the first one: `SetInGlobal` or `starnet_globalmq_push` in
`FinishDispatch`, and `starnet_globalmq_push` in `TryEnterGlobal`. -/
def secondLock (σ : State n) : Activity n → Option (Claim Lock)
  | .worker w =>
    match σ.worker w with
    | .finish srv =>
      if (σ.srv srv).mq.msgQueue = [] then some { lock := .inGlobal srv }
      else some { lock := .global }
    | _ => none
  | .call k =>
    match σ.call k with
    | .sendEnter srv | .killEnter srv =>
      if (σ.srv srv).mq.inGlobal then none else some { lock := .global }
    | _ => none
  | _ => none

/-- The lock that an activity takes for its next step after those that it has taken. -/
def nextLock (σ : State n) (i : Activity n) : List (Claim Lock) → Option (Claim Lock)
  | [] => σ.firstLock i
  | [_] => σ.secondLock i
  | _ => none

/-- `Clear` holds the queue lock while it calls the drop function. -/
def keepsLock (σ : State n) : Activity n → Claim Lock → Bool
  | .worker w, c => (σ.worker w).clearing.any fun srv => c = { lock := .queue srv }
  | _, _ => false

/-- The calls that a worker makes in `Clear` and the main thread in `KillAllServices`. -/
inductive CalledBy (σ : State n) : Activity n → Nat → Prop
  | drop {w : Fin n} {r : ServiceRef} {k : Nat} (h : σ.worker w = .clearSend r k) :
      CalledBy σ (.worker w) k
  | killAll {ids : List UInt32} {k : Nat} (h : σ.main = .killCall ids k) : CalledBy σ .main k

/-- Which thread runs an activity. A thread is named by the activity that it begins with. -/
inductive Runs (σ : State n) : Activity n → Activity n → Prop
  | worker (w : Fin n) : Runs σ (.worker w) (.worker w)
  | main : Runs σ .main .main
  | creator (j : Nat) : Runs σ (.creator j) (.creator j)
  | call {k : Nat} (own : ∀ i, ¬ σ.CalledBy i k) : Runs σ (.call k) (.call k)
  | called {i : Activity n} {k : Nat} (h : σ.CalledBy i k) : Runs σ i (.call k)

end State

/-- The activities that a step belongs to: those that it moves, and a call of `NewService`. -/
structure Movers (σ : State n) (e : Event n) (σ' : State n) (is : List (Activity n)) : Prop where
  worker : ∀ w, σ'.worker w ≠ σ.worker w → .worker w ∈ is
  call : ∀ k, σ'.call k ≠ σ.call k → .call k ∈ is
  main : σ'.main ≠ σ.main → .main ∈ is
  creator : ∀ r, e = .created r → ∃ j, .creator j ∈ is

/-- A node with its locks. -/
def locking (n : Nat) : Discipline (State n) (Event n) (Activity n) (Activity n) Lock where
  base := node n
  movers := Movers
  next := State.nextLock
  keeps := State.keepsLock
  runs := State.Runs

/-- No chain of threads that wait for locks comes back to its start, and no thread waits for a lock
that it holds. -/
def DeadlockFree (s : Locked (State n) (Activity n) Lock) : Prop :=
  (∀ t, ¬ Relation.TransGen ((locking n).WaitsFor s) t t) ∧ ∀ t, ¬ (locking n).WaitsFor s t t

/-! ### What an activity holds -/

/-- The activity takes a second lock under its first one. -/
def State.Nests (σ : State n) : Activity n → Prop
  | .worker w => ∃ r, σ.worker w = .finish r
  | .call k => ∃ r, σ.call k = .sendEnter r ∨ σ.call k = .killEnter r
  | _ => False

/-- The activity is in `Clear` or waits for a call of `KillAllServices`. -/
def State.Awaits (σ : State n) : Activity n → Prop
  | .worker w => (σ.worker w).clearing ≠ none
  | .main => ∃ ids k, σ.main = .killCall ids k
  | _ => False

/-- What an activity has taken begins with the first lock of its step, and one that is in `Clear`
has nothing to give back. -/
structure Fits (σ : State n) (i : Activity n) (got left : List (Claim Lock)) : Prop where
  got : got = [] ∨ ∃ c, σ.firstLock i = some c ∧ (got = [c] ∨ ∃ c', got = [c, c'] ∧ σ.Nests i)
  left : σ.Awaits i → left = []

theorem State.nests_of_secondLock {i : Activity n} {c : Claim Lock}
    (h : σ.secondLock i = some c) : σ.Nests i := by
  cases i with
  | worker w =>
    simp only [secondLock] at h
    split at h
    · rename_i r pc
      exact ⟨r, pc⟩
    · cases h
  | call k =>
    simp only [secondLock] at h
    split at h
    · rename_i r pc
      exact ⟨r, .inl pc⟩
    · rename_i r pc
      exact ⟨r, .inr pc⟩
    · cases h
  | main | creator => cases h

theorem WorkerPc.held_of_clearing {pc : WorkerPc} (h : pc.clearing = some r) :
    pc.held = some r := by
  cases pc <;> simp_all [WorkerPc.clearing, WorkerPc.held]

theorem WorkerPc.firstLock_of_clearing {pc : WorkerPc} {weight : Int} (h : pc.clearing = some r) :
    pc.firstLock weight = none := by
  cases pc <;> first | rfl | cases h

theorem State.firstLock_of_awaits {i : Activity n} (h : σ.Awaits i) : σ.firstLock i = none := by
  cases i with
  | worker w =>
    obtain ⟨r, clearing⟩ := Option.ne_none_iff_exists'.mp h
    exact WorkerPc.firstLock_of_clearing clearing
  | main =>
    obtain ⟨ids, k, main⟩ := h
    simp [State.firstLock, main]
  | call | creator => cases h

/-- A worker comes to `Clear` from the end of `OnExit`. -/
theorem Step.clearing_of (step : Step σ e σ') {w : Fin n}
    (h : (σ'.worker w).clearing = some r) :
    σ.worker w = .onExit r ∨ (σ.worker w).clearing = some r := by
  by_cases moves : σ'.worker w = σ.worker w
  · exact .inr (by rwa [← moves])
  · have held : (σ.worker w).held ≠ none := by
      rcases step.held_of (WorkerPc.held_of_clearing h) with held | rfl
      · simp [held]
      · rw [step.take_inv.2.1] at h
        cases h
    cases step.turnStep_of_moves held moves with
    | readLength | processDone | processPop | processNone | readOverload | onMsgReturn | testLive
    | testExiting | testExited | finish | clearDone =>
      cases State.eq_of_moves rfl moves
      rw [State.setWorker_worker_same] at h
      cases h
    | onExitReturn at' | clearSend at' | clearResume at' =>
      cases State.eq_of_moves rfl moves
      rw [State.setWorker_worker_same] at h
      cases h
      first
      | exact .inl at'
      | exact .inr (by rw [at']; rfl)
    | clearDrop => exact absurd rfl moves

/-- The main thread makes a call of `KillAllServices` between two others. -/
theorem Step.killCall_of (step : Step σ e σ') {ids : List UInt32} {k : Nat}
    (h : σ'.main = .killCall ids k) : σ.main ≠ .waiting := by
  intro waiting
  cases step with
  | service step => cases step <;> exact nomatch waiting.symm.trans h
  | call step => cases step <;> exact nomatch waiting.symm.trans h
  | wake step => cases step <;> exact nomatch waiting.symm.trans h
  | sleep step => cases step <;> exact nomatch waiting.symm.trans h
  | turn step => cases step <;> exact nomatch waiting.symm.trans h
  | main step =>
    cases step with
    | killAll => cases h
    | killNext at' | killReturn at' | setExit at' | wakeAll at' => exact nomatch waiting.symm.trans at'

namespace Movers

variable {is : List (Activity n)} {i : Activity n}

theorem worker_eq (m : Movers σ e σ' is) {w : Fin n} (h : .worker w ∉ is) :
    σ'.worker w = σ.worker w := by
  by_contra ne
  exact h (m.worker w ne)

theorem call_eq (m : Movers σ e σ' is) {k : Nat} (h : .call k ∉ is) : σ'.call k = σ.call k := by
  by_contra ne
  exact h (m.call k ne)

theorem main_eq (m : Movers σ e σ' is) (h : .main ∉ is) : σ'.main = σ.main := by
  by_contra ne
  exact h (m.main ne)

theorem fits (m : Movers σ e σ' is) (h : i ∉ is) {got left : List (Claim Lock)}
    (fits : Fits σ i got left) : Fits σ' i got left := by
  have same : σ'.firstLock i = σ.firstLock i ∧ (σ'.Nests i ↔ σ.Nests i) ∧
      (σ'.Awaits i ↔ σ.Awaits i) := by
    cases i with
    | worker w => simp [State.firstLock, State.Nests, State.Awaits, m.worker_eq h]
    | call k => simp [State.firstLock, State.Nests, State.Awaits, m.call_eq h]
    | main => simp [State.firstLock, State.Nests, State.Awaits, m.main_eq h]
    | creator => exact ⟨rfl, Iff.rfl, Iff.rfl⟩
  refine ⟨?_, fun awaits => fits.left (same.2.2.mp awaits)⟩
  rw [same.1, same.2.1]
  exact fits.got

end Movers

namespace Fits

variable {i : Activity n} {got left : List (Claim Lock)} {c : Claim Lock}

theorem acquire (fits : Fits σ i got []) (next : σ.nextLock i got = some c) :
    Fits σ i (got ++ [c]) [] := by
  refine ⟨.inr ?_, fun _ => rfl⟩
  rcases fits.got with rfl | ⟨c₁, first, rfl | ⟨c₂, rfl, -⟩⟩
  · exact ⟨c, next, .inl rfl⟩
  · exact ⟨c₁, first, .inr ⟨c, rfl, State.nests_of_secondLock next⟩⟩
  · cases next

/-- The locks that are given back after a step. The worker that comes to `Clear` keeps its lock. -/
theorem commit (fits : Fits σ i got []) (step : Step σ e σ') (next : σ.nextLock i got = none) :
    Fits σ' i [] (got.reverse.filter fun c => !σ'.keepsLock i c) := by
  refine ⟨.inl rfl, fun awaits => ?_⟩
  have empty : σ.firstLock i = none → got = [] := by
    intro none
    rcases fits.got with eq | ⟨c, first, -⟩
    · exact eq
    · rw [none] at first
      cases first
  cases i with
  | worker w =>
    obtain ⟨r, clearing⟩ := Option.ne_none_iff_exists'.mp awaits
    rcases step.clearing_of clearing with onExit | before
    · have first : σ.firstLock (.worker w) = some { lock := .queue r } := by
        simp [State.firstLock, onExit, WorkerPc.firstLock]
      rcases fits.got with rfl | ⟨c, eq, rfl | ⟨c', rfl, r', finish⟩⟩
      · exact nomatch first.symm.trans next
      · rw [first] at eq
        cases eq
        simp [State.keepsLock, clearing]
      · rw [onExit] at finish
        cases finish
    · rw [empty (WorkerPc.firstLock_of_clearing before)]
      rfl
  | main =>
    obtain ⟨ids, k, main⟩ := awaits
    rw [empty (by simp [State.firstLock, step.killCall_of main])]
    rfl
  | call | creator => cases awaits

theorem run {s : Locked (State n) (Activity n) Lock} {tr : List (LockEvent (Event n) (Activity n) Lock)}
    (run : (locking n).locked.Run s tr) (i : Activity n) :
    Fits s.base i (s.got i) (s.left i) := by
  refine Discipline.run_invariant (d := locking n) (P := Fits) ?_ ?_ ?_ ?_ ?_ run i
  · exact fun _ _ _ => ⟨.inl rfl, fun _ => rfl⟩
  · exact fun _ _ _ _ fits next => fits.acquire next
  · exact fun _ _ _ _ _ _ step _ _ fits next => fits.commit step next
  · exact fun _ _ _ _ _ _ _ _ movers mem fits => movers.fits mem fits
  · intro σ i got c rest fits
    exact ⟨fits.got, fun awaits => absurd (fits.left awaits) (List.cons_ne_nil _ _)⟩

end Fits

/-! ### The order of the exits -/

/-- The service whose `OnExit` the event is the call of. -/
def Event.exitOf : Event n → Option ServiceRef
  | exit _ srv => some srv
  | _ => none

/-- The services in the order in which they exited. -/
def exitOrder (tr : List (Event n)) : List ServiceRef := tr.filterMap Event.exitOf

theorem exitOrder_concat : exitOrder (tr ++ [e]) = exitOrder tr ++ e.exitOf.toList := by
  cases h : e.exitOf <;> simp [exitOrder, h]

theorem mem_exitOrder (run : (node n).Run σ tr) :
    r ∈ exitOrder tr ↔ (σ.srv r).exited = true := by
  have paths := ExitPaths.run run r
  constructor
  · intro mem
    obtain ⟨e, event, eq⟩ := List.mem_filterMap.mp mem
    cases e with
    | exit w srv =>
      cases eq
      exact paths.exited_of_mem event
    | _ => cases eq
  · intro exited
    have one : 0 < exits r tr := by
      rw [paths.exits, if_pos exited]
      exact Nat.one_pos
    obtain ⟨e, event, eq⟩ := List.countP_pos_iff.mp one
    cases e with
    | exit w srv =>
      obtain rfl : srv = r := by simpa [Event.exits] using eq
      exact List.mem_filterMap.mpr ⟨_, event, rfl⟩
    | _ => cases eq

/-- A service that a call of `dropMessage` sends to exits after the one whose messages are
dropped. -/
def DropsUpward (σ : State n) (tr : List (Event n)) : Prop :=
  ∀ w r k r', σ.worker w = .clearSend r k → (σ.call k).target = some r' →
    (exitOrder tr).idxOf r < (exitOrder tr).idxOf r'

theorem idxOf_append_lt {l l' : List ServiceRef} {a b : ServiceRef}
    (h : l.idxOf a < l.idxOf b) : (l ++ l').idxOf a < (l ++ l').idxOf b := by
  have mem : a ∈ l := List.idxOf_lt_length_iff.mp (h.trans_le List.idxOf_le_length)
  rw [List.idxOf_append_of_mem mem, List.idxOf_append]
  split
  · exact h
  · exact Nat.lt_add_left _ (List.idxOf_lt_length_iff.mpr mem)

/-- A worker calls `Send` for a dropped message with a call that holds no service yet. -/
theorem Step.clearSend_of (step : Step σ e σ') {w : Fin n} {k : Nat}
    (h : σ'.worker w = .clearSend r k) :
    σ.worker w = .clearSend r k ∨ (σ'.call k).target = none := by
  by_cases moves : σ'.worker w = σ.worker w
  · exact .inl (moves.symm.trans h)
  · have clearing := step.clearing_of (w := w) (r := r) (by rw [h]; rfl)
    have held : (σ.worker w).held ≠ none := by
      rcases clearing with onExit | clearing
      · simp [onExit, WorkerPc.held]
      · simp [WorkerPc.held_of_clearing clearing]
    cases step.turnStep_of_moves held moves with
    | readLength | processDone | processPop | processNone | readOverload | onMsgReturn | testLive
    | testExiting | testExited | finish | onExitReturn | clearResume | clearDone =>
      cases State.eq_of_moves rfl moves
      rw [State.setWorker_worker_same] at h
      cases h
    | clearSend =>
      cases State.eq_of_moves rfl moves
      rw [State.setWorker_worker_same] at h
      cases h
      exact .inr (by simp [CallPc.target])
    | clearDrop => exact absurd rfl moves

theorem dropsUpward_of_run (run : (node n).Run σ tr) : DropsUpward σ tr := by
  refine run.invariant (P := DropsUpward) ?_ ?_
  · rintro σ rfl w r k r' h
    cases h
  · intro σ tr e σ' run ih step w r k r' h target
    have run' := run.step step
    rcases step.clearSend_of h with before | none
    · rcases step.target_of target with target | ⟨id, found⟩
      · rw [exitOrder_concat]
        exact idxOf_append_lt (ih w r k r' before target)
      · -- the service that `GetService` finds is not being retired, so it has not exited
        have live := not_isExiting_of_found run found
        have later : r' ∉ exitOrder (tr ++ [e]) := by
          rw [mem_exitOrder run']
          intro exited
          rcases (step.grows (Born.run run) r').exit exited with exited | marked
          · have marked := isExiting_of_exited run r' exited
            rw [live] at marked
            contradiction
          · rw [live] at marked
            contradiction
        have gone : r ∈ exitOrder (tr ++ [e]) :=
          (mem_exitOrder run').mpr (((Token.run run' r).phase w (by rw [h]; rfl)).mp (by rw [h]; rfl))
        rw [List.idxOf_eq_length later]
        exact List.idxOf_lt_length_of_mem gone
    · rw [none] at target
      cases target

/-! ### The order of the locks -/

/-- The place of a lock in the order: the queues by the exits of their services, and above them
`servicesLock` and the locks of `inGlobal`, and the lock of the global queue. -/
def Lock.rank (order : List ServiceRef) : Lock → Nat
  | queue srv => order.idxOf srv
  | services | inGlobal _ => order.length + 1
  | global => order.length + 2

theorem Lock.rank_queue_lt {order : List ServiceRef} {l : Lock} (h : ∀ srv, l ≠ .queue srv) :
    Lock.rank order (.queue r) < l.rank order := by
  have le : order.idxOf r ≤ order.length := List.idxOf_le_length
  cases l with
  | queue srv => exact absurd rfl (h srv)
  | services | inGlobal | global => simp only [Lock.rank]; omega

variable {order : List ServiceRef} {i : Activity n} {c c' : Claim Lock}

/-- The second lock of a step is above the first one. -/
theorem State.firstLock_lt (first : σ.firstLock i = some c) (second : σ.secondLock i = some c') :
    c.lock.rank order < c'.lock.rank order := by
  cases i with
  | worker w =>
    obtain ⟨r, finish⟩ := State.nests_of_secondLock second
    simp only [State.firstLock, State.secondLock, finish, WorkerPc.firstLock] at first second
    cases first
    split at second <;> cases second <;> exact Lock.rank_queue_lt (by simp)
  | call k =>
    obtain ⟨r, enter | enter⟩ := State.nests_of_secondLock second <;>
    · simp only [State.firstLock, State.secondLock, enter, CallPc.firstLock] at first second
      cases first
      split at second <;> cases second
      exact Nat.lt_succ_self _
  | main | creator => cases second

/-- The locks of a call are above the queue of a service that exits before its target. -/
theorem State.queue_lt {k : Nat} {got : List (Claim Lock)}
    (next : σ.nextLock (.call k) got = some c)
    (target : ∀ r', (σ.call k).target = some r' → order.idxOf r < order.idxOf r') :
    Lock.rank order (.queue r) < c.lock.rank order := by
  by_cases queue : ∃ srv, c.lock = .queue srv
  · obtain ⟨srv, eq⟩ := queue
    rw [eq]
    refine target srv ?_
    cases got with
    | nil =>
      simp only [State.nextLock, State.firstLock] at next
      cases pc : σ.call k <;> rw [pc] at next <;> cases next <;> cases eq
      rfl
    | cons c₁ got =>
      cases got with
      | nil =>
        have second : σ.secondLock (.call k) = some c := next
        obtain ⟨r', enter | enter⟩ := State.nests_of_secondLock second <;>
        · simp only [State.secondLock, enter] at second
          split at second <;> cases second
          cases eq
      | cons => cases next
  · exact Lock.rank_queue_lt fun srv eq => queue ⟨srv, eq⟩

variable {s : Locked (State n) (Activity n) Lock}
  {ltr : List (LockEvent (Event n) (Activity n) Lock)}

/-- An activity that waits for a call has taken nothing itself, and asks for nothing. -/
theorem Fits.of_awaits (fits : Fits s.base i (s.got i) (s.left i)) (awaits : s.base.Awaits i) :
    s.got i = [] ∧ s.left i = [] ∧ ∀ c, ¬ (locking n).Wants s i c := by
  have first := State.firstLock_of_awaits awaits
  have empty : s.got i = [] := by
    rcases fits.got with eq | ⟨c, taken, -⟩
    · exact eq
    · exact nomatch first.symm.trans taken
  refine ⟨empty, fits.left awaits, fun c wants => ?_⟩
  have next := wants.2
  rw [empty] at next
  exact nomatch first.symm.trans next

theorem State.awaits_of_keepsLock (h : σ.keepsLock i c = true) : σ.Awaits i := by
  cases i with
  | worker w =>
    intro eq
    simp [State.keepsLock, eq] at h
  | call | main | creator => cases h

/-- What one activity has taken is below what it asks for. -/
theorem Fits.ordered (fits : Fits s.base i (s.got i) (s.left i))
    (holds : (locking n).Holds s i c) (wants : (locking n).Wants s i c') :
    c.lock.rank order < c'.lock.rank order := by
  have none := wants.1
  have next := wants.2
  rcases holds with kept | mem | mem
  · exact absurd wants ((fits.of_awaits (State.awaits_of_keepsLock kept)).2.2 c')
  · rcases fits.got with eq | ⟨c₁, first, eq | ⟨c₂, eq, -⟩⟩
    · rw [eq] at mem
      cases mem
    · rw [eq] at mem next
      rw [List.mem_singleton.mp mem]
      exact State.firstLock_lt first next
    · rw [eq] at next
      cases next
  · rw [none] at mem
    cases mem

theorem State.CalledBy.awaits {k : Nat} (h : σ.CalledBy i k) : σ.Awaits i := by
  cases h with
  | drop h => simp [State.Awaits, h, WorkerPc.clearing]
  | killAll h => exact ⟨_, _, h⟩

theorem State.CalledBy.unique {k k' : Nat} (h : σ.CalledBy i k) (h' : σ.CalledBy i k') :
    k = k' := by
  cases h with
  | drop h =>
    cases h' with
    | drop h' =>
      cases h.symm.trans h'
      rfl
  | killAll h =>
    cases h' with
    | killAll h' =>
      cases h.symm.trans h'
      rfl

/-- The lock that the caller of a call keeps is below what the call asks for. -/
theorem called_lt (run : (locking n).locked.Run s ltr) {k : Nat} (called : s.base.CalledBy i k)
    (holds : (locking n).Holds s i c) (wants : (locking n).Wants s (.call k) c') :
    c.lock.rank (exitOrder (ltr.filterMap LockEvent.base)) <
      c'.lock.rank (exitOrder (ltr.filterMap LockEvent.base)) := by
  obtain ⟨got, left, -⟩ := (Fits.run run i).of_awaits called.awaits
  rcases holds with kept | mem | mem
  · cases called with
    | @drop w r k clearing =>
      obtain rfl : c = { lock := .queue r } := by
        simpa [locking, State.keepsLock, clearing, WorkerPc.clearing] using kept
      have upward := dropsUpward_of_run (Discipline.run_base run)
      exact State.queue_lt wants.2 fun r' => upward w r k r' clearing
    | killAll => cases kept
  · rw [got] at mem
    cases mem
  · rw [left] at mem
    cases mem

/-- A thread asks for a lock above those that it holds, also in a call that it makes while it keeps
the queue of a dying service. -/
theorem ordered_of_run (run : (locking n).locked.Run s ltr) :
    (locking n).Ordered s (Lock.rank (exitOrder (ltr.filterMap LockEvent.base))) := by
  have fits := Fits.run run
  intro t i j c c' runs runs' holds wants
  cases runs with
  | worker | main | creator =>
    cases runs' with
    | called called => exact called_lt run called holds wants
    | _ => exact (fits _).ordered holds wants
  | call =>
    cases runs' with
    | call => exact (fits _).ordered holds wants
    | called called => cases called
  | called called =>
    cases runs' with
    | worker | main | creator =>
      exact absurd wants (((fits _).of_awaits called.awaits).2.2 c')
    | call => cases called
    | called called' =>
      cases called.unique called'
      exact (fits _).ordered holds wants

/-- For every interleaving of the workers, of the calls of `Send`, `KillService` and `NewService`,
and of `KillAllServices`, the wait-for relation of the threads has no cycle, and no thread waits for
a lock that it holds. -/
theorem deadlockFree_of_run (run : (locking n).locked.Run s ltr) : DeadlockFree s := by
  have acyclic := fun t => (ordered_of_run run).acyclic t
  exact ⟨acyclic, fun t waits => acyclic t (.single waits)⟩

/-! ### Runs of the node under its locks -/

/-- The locks of the next step of an activity. -/
def State.stepLocks (σ : State n) (i : Activity n) : List (Claim Lock) :=
  match σ.firstLock i with
  | none => []
  | some c => c :: (σ.secondLock i).toList

theorem State.takes_stepLocks (σ : State n) (i : Activity n) :
    (locking n).Takes σ i (σ.stepLocks i) := by
  intro m le
  unfold State.stepLocks at le ⊢
  cases first : σ.firstLock i with
  | none =>
    simp only [first, List.length_nil, Nat.le_zero] at le
    subst le
    exact first
  | some c =>
    simp only [first] at le
    cases second : σ.secondLock i with
    | none =>
      simp only [second, Option.toList_none, List.length_singleton] at le
      match m, le with
      | 0, _ => exact first
      | 1, _ => exact second
    | some c' =>
      simp only [second, Option.toList_some, List.length_cons, List.length_nil] at le
      match m, le with
      | 0, _ => exact first
      | 1, _ => exact second
      | 2, _ => rfl

theorem State.stepLocks_apart (σ : State n) (i : Activity n) :
    (σ.stepLocks i).Pairwise fun c c' => c'.Compatible c := by
  unfold State.stepLocks
  cases first : σ.firstLock i with
  | none => exact .nil
  | some c =>
    cases second : σ.secondLock i with
    | none => exact List.pairwise_singleton _ _
    | some c' =>
      refine List.pairwise_pair.mpr fun same => ?_
      have lt : c.lock.rank [] < c'.lock.rank [] := State.firstLock_lt first second
      rw [same] at lt
      exact absurd lt (Nat.lt_irrefl _)

theorem State.queue_mem_stepLocks (h : c ∈ σ.stepLocks i) (queue : c.lock = .queue r) :
    σ.firstLock i = some c := by
  unfold State.stepLocks at h
  cases first : σ.firstLock i with
  | none => simp [first] at h
  | some c₁ =>
    simp only [first, List.mem_cons, Option.mem_toList] at h
    rcases h with rfl | second
    · rfl
    · -- the second lock is an `inGlobalLock` or the lock of the global queue
      exfalso
      cases i with
      | worker w =>
        obtain ⟨r', finish⟩ := State.nests_of_secondLock second
        simp only [State.secondLock, finish] at second
        split at second <;> cases second <;> cases queue
      | call k =>
        obtain ⟨r', enter | enter⟩ := State.nests_of_secondLock second <;>
        · simp only [State.secondLock, enter] at second
          split at second <;> cases second
          cases queue
      | main | creator => cases second

/-- The step belongs to the activities `is`. Only `taker` takes locks for it, and a queue that it
locks is not locked by `Clear`. -/
structure Locks (σ : State n) (e : Event n) (σ' : State n) (taker : Option (Activity n))
    (is : List (Activity n)) : Prop where
  movers : Movers σ e σ' is
  mem : ∀ i ∈ taker, i ∈ is
  others : ∀ j ∈ is, j ∉ taker → σ.firstLock j = none
  free : ∀ i ∈ taker, ∀ c r, σ.firstLock i = some c → c.lock = .queue r →
    (σ.srv r).mq.queueLock = false

namespace Locks

variable {is : List (Activity n)}

theorem call {k : Nat} (event : ∀ r, e ≠ .created r) (worker : σ'.worker = σ.worker)
    (main : σ'.main = σ.main) (others : ∀ k', k' ≠ k → σ'.call k' = σ.call k')
    (free : ∀ c r, (σ.call k).firstLock = some c → c.lock = .queue r →
      (σ.srv r).mq.queueLock = false) :
    Locks σ e σ' (some (.call k)) [.call k] := by
  refine ⟨⟨fun w ne => ?_, fun k' ne => ?_, fun ne => ?_, fun r eq => absurd eq (event r)⟩,
    by simp, by simp, fun i mem => ?_⟩
  · exact absurd (congrFun worker w) ne
  · by_cases same : k' = k
    · simp [same]
    · exact absurd (others k' same) ne
  · exact absurd main ne
  · cases mem
    exact free

theorem worker {w : Fin n} (event : ∀ r, e ≠ .created r) (call : σ'.call = σ.call)
    (main : σ'.main = σ.main) (others : ∀ w', w' ≠ w → σ'.worker w' = σ.worker w')
    (free : ∀ c r, (σ.worker w).firstLock (weight w) = some c → c.lock = .queue r →
      (σ.srv r).mq.queueLock = false) :
    Locks σ e σ' (some (.worker w)) [.worker w] := by
  refine ⟨⟨fun w' ne => ?_, fun k ne => ?_, fun ne => ?_, fun r eq => absurd eq (event r)⟩,
    by simp, by simp, fun i mem => ?_⟩
  · by_cases same : w' = w
    · simp [same]
    · exact absurd (others w' same) ne
  · exact absurd (congrFun call k) ne
  · exact absurd main ne
  · cases mem
    exact free

/-- A step that moves nothing. -/
theorem still (event : ∀ r, e ≠ .created r) (worker : σ'.worker = σ.worker)
    (call : σ'.call = σ.call) (main : σ'.main = σ.main) : Locks σ e σ' none [] := by
  refine ⟨⟨fun w ne => ?_, fun k ne => ?_, fun ne => ?_, fun r eq => absurd eq (event r)⟩,
    by simp, by simp, by simp⟩
  · exact absurd (congrFun worker w) ne
  · exact absurd (congrFun call k) ne
  · exact absurd main ne

theorem serviceStep (step : ServiceStep σ e σ') : ∃ taker is, Locks σ e σ' taker is := by
  cases step with
  | newService =>
    refine ⟨some (.creator 0), [.creator 0], ⟨by simp [State.newService], by simp [State.newService],
      by simp [State.newService], fun r _ => ⟨0, by simp⟩⟩, by simp, by simp, ?_⟩
    rintro i ⟨⟩ c r ⟨⟩ ⟨⟩
  | onInit | onInitReturn | nameService => exact ⟨_, _, still (by simp) rfl rfl rfl⟩

theorem callStep (step : CallStep σ e σ') : ∃ taker is, Locks σ e σ' taker is := by
  cases step with
  | @send k _ _ h | @sendFound k _ _ _ h | @sendMissed k _ _ h | @sendEnter k _ h | @kill k _ h
  | @killFound k _ _ h | @killMissed k _ h | @killErase k _ _ h | @killName k _ _ h
  | @killMark k _ h | @killRead k _ h | @killEnter k _ h =>
    refine ⟨_, _, call (k := k) (by simp) rfl rfl (fun _ ne => Function.update_of_ne ne ..) ?_⟩
    rw [h]
    rintro c r ⟨⟩ ⟨⟩
  | @sendPush k r msg h free =>
    refine ⟨_, _, call (k := k) (by simp) rfl rfl (fun _ ne => Function.update_of_ne ne ..) ?_⟩
    rw [h]
    rintro c r' ⟨⟩ ⟨⟩
    exact free

theorem wakeStep (step : WakeStep σ e σ') : ∃ taker is, Locks σ e σ' taker is := by
  cases step with
  | @wakeTest k h | @wakeCount k h | @wakeLength k _ h | @wakeNone k h =>
    refine ⟨_, _, call (k := k) (by simp) rfl rfl (fun _ ne => Function.update_of_ne ne ..) ?_⟩
    rw [h]
    rintro c r ⟨⟩ ⟨⟩
  | @wakeSignal k w h waits =>
    refine ⟨none, [.call k, .worker w], ⟨fun w' ne => ?_, fun k' ne => ?_, fun ne => ?_, by simp⟩,
      by simp, fun j mem _ => ?_, by simp⟩
    · by_cases same : w' = w
      · simp [same]
      · exact absurd (Function.update_of_ne same ..) ne
    · by_cases same : k' = k
      · simp [same]
      · exact absurd (Function.update_of_ne same ..) ne
    · exact absurd rfl ne
    · obtain rfl | rfl : j = .call k ∨ j = .worker w := by simpa using mem
      · simp [State.firstLock, h, CallPc.firstLock]
      · simp [State.firstLock, waits, WorkerPc.firstLock]

theorem sleepStep (step : SleepStep σ e σ') : ∃ taker is, Locks σ e σ' taker is := by
  cases step with
  | @take w _ _ h | @takeNone w h | @readExit w h | @lockSleep w h | @condWait w h | @spurious w h
  | @resume w h =>
    refine ⟨_, _, worker (w := w) (by simp) rfl rfl (fun _ ne => Function.update_of_ne ne ..) ?_⟩
    rw [h]
    rintro c r ⟨⟩ ⟨⟩

theorem turnStep (step : TurnStep σ e σ') : ∃ taker is, Locks σ e σ' taker is := by
  cases step with
  | @processPop w r _ _ h free | @processNone w r _ h free | @readOverload w r _ _ h free
  | @finish w r h free | @onExitReturn w r h free =>
    refine ⟨_, _, worker (w := w) (by simp) rfl rfl (fun _ ne => Function.update_of_ne ne ..) ?_⟩
    rw [h]
    rintro c r' ⟨⟩ ⟨⟩
    exact free
  | @readLength w r h free =>
    refine ⟨_, _, worker (w := w) (by simp) rfl rfl (fun _ ne => Function.update_of_ne ne ..) ?_⟩
    rw [h]
    intro c r' first queue
    simp only [WorkerPc.firstLock] at first
    split at first <;> cases first
    cases queue
    exact free
  | @processDone w _ h | @onMsgReturn w _ _ _ h | @testLive w _ h | @testExiting w _ h
  | @testExited w _ h | @clearResume w _ _ h | @clearDone w _ h =>
    refine ⟨_, _, worker (w := w) (by simp) rfl rfl (fun _ ne => Function.update_of_ne ne ..) ?_⟩
    rw [h]
    rintro c r ⟨⟩ ⟨⟩
  | clearDrop => exact ⟨_, _, still (by simp) rfl rfl rfl⟩
  | @clearSend w r _ _ _ _ k h _ _ idle =>
    refine ⟨none, [.worker w, .call k], ⟨fun w' ne => ?_, fun k' ne => ?_, fun ne => ?_, by simp⟩,
      by simp, fun j mem _ => ?_, by simp⟩
    · by_cases same : w' = w
      · simp [same]
      · exact absurd (Function.update_of_ne same ..) ne
    · by_cases same : k' = k
      · simp [same]
      · exact absurd (Function.update_of_ne same ..) ne
    · exact absurd rfl ne
    · obtain rfl | rfl : j = .worker w ∨ j = .call k := by simpa using mem
      · simp [State.firstLock, h, WorkerPc.firstLock]
      · simp [State.firstLock, idle, CallPc.firstLock]

theorem mainStep (step : MainStep σ e σ') : ∃ taker is, Locks σ e σ' taker is := by
  cases step with
  | @killAll ids h =>
    refine ⟨some .main, [.main], ⟨by simp, by simp, by simp, by simp⟩, by simp, by simp, ?_⟩
    rintro i ⟨⟩ c r first queue
    simp only [State.firstLock, h, if_true] at first
    cases first
    cases queue
  | @killNext id ids k h idle =>
    refine ⟨none, [.main, .call k], ⟨by simp, fun k' ne => ?_, by simp, by simp⟩, by simp,
      fun j mem _ => ?_, by simp⟩
    · by_cases same : k' = k
      · simp [same]
      · exact absurd (Function.update_of_ne same ..) ne
    · obtain rfl | rfl : j = .main ∨ j = .call k := by simpa using mem
      · simp [State.firstLock, h]
      · simp [State.firstLock, idle, CallPc.firstLock]
  | killReturn h | setExit h =>
    refine ⟨none, [.main], ⟨by simp, by simp, by simp, by simp⟩, by simp, fun j mem _ => ?_, by simp⟩
    obtain rfl : j = .main := by simpa using mem
    simp [State.firstLock, h]
  | wakeAll h =>
    refine ⟨none, .main :: ((List.finRange n).filter fun w => σ.worker w = .blocked).map .worker,
      ⟨fun w ne => ?_, by simp [State.broadcast], by simp, by simp⟩, by simp, fun j mem _ => ?_,
      by simp⟩
    · have waits : σ.worker w = .blocked := by
        by_contra awake
        exact ne (if_neg awake)
      simp [waits]
    · rcases List.mem_cons.mp mem with rfl | worker
      · simp [State.firstLock, h]
      · obtain ⟨w, waits, rfl⟩ := List.mem_map.mp worker
        have blocked : σ.worker w = .blocked := by simpa using waits
        simp [State.firstLock, blocked, WorkerPc.firstLock]

end Locks

theorem Step.locks (step : Step σ e σ') : ∃ taker is, Locks σ e σ' taker is := by
  cases step with
  | service h => exact Locks.serviceStep h
  | call h => exact Locks.callStep h
  | wake h => exact Locks.wakeStep h
  | sleep h => exact Locks.sleepStep h
  | turn h => exact Locks.turnStep h
  | main h => exact Locks.mainStep h

/-- A queue that is locked stays locked until the end of `Clear`. -/
theorem Step.queueLock_of (step : Step σ e σ') (born : Born σ)
    (locked : (σ.srv r).mq.queueLock = true) :
    (σ'.srv r).mq.queueLock = true ∨
      ∃ w, σ.worker w = .clear r ∧ (σ'.worker w).clearing = none := by
  have update : ∀ {r' : ServiceRef} {s : Service},
      ((σ.srv r').mq.queueLock = true → s.mq.queueLock = true) →
      (Function.update σ.srv r' s r).mq.queueLock = true := by
    intro r' s keeps
    by_cases same : r = r'
    · subst same
      rw [Function.update_self]
      exact keeps locked
    · rwa [Function.update_of_ne same]
  cases step with
  | service step =>
    cases step with
    | newService =>
      refine .inl (update ?_)
      rw [born.srv σ.nextRef le_rfl]
      exact id
    | onInit | onInitReturn => exact .inl (update id)
    | nameService => exact .inl locked
  | call step =>
    cases step with
    | sendPush | killMark => exact .inl (update id)
    | sendEnter | killEnter => exact .inl (update (by simp))
    | _ => exact .inl locked
  | wake step => cases step <;> exact .inl locked
  | sleep step => cases step <;> exact .inl locked
  | turn step =>
    cases step with
    | processPop | processNone | finish => exact .inl (update (by simp))
    | readOverload | testExiting | clearDrop | clearSend => exact .inl (update id)
    | onExitReturn => exact .inl (update fun _ => rfl)
    | @clearDone w r' h =>
      by_cases same : r = r'
      · subst same
        exact .inr ⟨w, h, by simp [WorkerPc.clearing]⟩
      · exact .inl (by simpa [State.modQueue, State.modService_srv_other _ _ _ same] using locked)
    | _ => exact .inl locked
  | main step => cases step <;> exact .inl locked

/-- `Clear` takes the lock of the queue. -/
theorem Step.queueLock_of_onExit (step : Step σ e σ') {w : Fin n} (h : σ.worker w = .onExit r)
    (clearing : (σ'.worker w).clearing = some r) : (σ'.srv r).mq.queueLock = true := by
  have moves : σ'.worker w ≠ σ.worker w := by
    intro eq
    rw [eq, h] at clearing
    cases clearing
  cases step.turnStep_of_moves (by simp [h, WorkerPc.held]) moves with
  | @onExitReturn w' r' h' =>
    cases State.eq_of_moves rfl moves
    cases h.symm.trans h'
    simp [State.modQueue]
  | readLength h' | processDone h' | processPop h' | processNone h' | readOverload h'
  | onMsgReturn h' | testLive h' | testExiting h' | testExited h' | finish h' | clearSend h'
  | clearResume h' | clearDone h' =>
    cases State.eq_of_moves rfl moves
    cases h.symm.trans h'
  | clearDrop => exact absurd rfl moves

/-- While a worker is in `Clear`, the queue is locked. -/
theorem queueLock_of_clearing (run : (node n).Run σ tr) {w : Fin n}
    (h : (σ.worker w).clearing = some r) : (σ.srv r).mq.queueLock = true := by
  revert w
  refine run.invariant (P := fun σ _ => ∀ {w : Fin n}, (σ.worker w).clearing = some r →
    (σ.srv r).mq.queueLock = true) ?_ ?_
  · rintro σ rfl w h
    cases h
  · intro σ tr e σ' run ih step w h
    rcases step.clearing_of h with onExit | before
    · exact step.queueLock_of_onExit onExit h
    · rcases step.queueLock_of (Born.run run) (ih before) with locked | ⟨w', clear, left⟩
      · exact locked
      · have same : w = w' := (Token.run run r).unique (WorkerPc.held_of_clearing before)
          (by rw [clear]; rfl)
        subst same
        rw [left] at h
        cases h

/-- Every run of the node is a run under its locks. -/
theorem locked_of_run (run : (node n).Run σ tr) : ∃ ltr,
    (locking n).locked.Run (Discipline.idle σ) ltr ∧ ltr.filterMap LockEvent.base = tr := by
  induction run with
  | init h => exact ⟨[], .init ⟨h, rfl⟩, rfl⟩
  | @step σ σ' tr e run step ih =>
    obtain ⟨ltr, before, rfl⟩ := ih
    obtain ⟨taker, is, locks⟩ := step.locks
    cases taker with
    | none =>
      exact Discipline.run_commit before step locks.movers fun j mem => locks.others j mem (by simp)
    | some i =>
      refine Discipline.run_section before step locks.movers (σ.takes_stepLocks i)
        (fun j mem ne => locks.others j mem ?_) (fun c mem j c' kept same => ?_)
        (σ.stepLocks_apart i) (locks.mem i rfl)
      · rintro ⟨⟩
        exact ne rfl
      · exfalso
        have keeps : σ.keepsLock j c' = true := kept
        cases j with
        | worker w =>
          obtain ⟨r, clearing⟩ := Option.ne_none_iff_exists'.mp (State.awaits_of_keepsLock keeps)
          obtain rfl : c' = { lock := .queue r } := by
            simpa [State.keepsLock, clearing] using keeps
          have free := locks.free i rfl c r (State.queue_mem_stepLocks mem same) same
          rw [queueLock_of_clearing run clearing] at free
          cases free
        | call | main | creator => cases keeps

/-- A request from the service with the id 2. -/
def requestFrom2 : BaseMsg := ⟨MsgType.lua, .service { source := 2, session := 1, buff := [] }⟩

/-- A worker in `Clear` on service 0 sends the answer to a dropped request to service 1, and waits
for a sender that holds the lock of its queue. -/
theorem deadlockFree_clear :
    ∃ (s : Locked (State 1) (Activity 1) Lock)
      (ltr : List (LockEvent (Event 1) (Activity 1) Lock)),
      (locking 1).locked.Run s ltr ∧ s.base.worker 0 = .clearSend 0 0 ∧
        (locking 1).WaitsFor s (.worker 0) (.call 2) ∧ DeadlockFree s := by
  have h0 : (node 1).Run _ _ := .init rfl
  have h1 := h0.step (.service (.newService _))
  have h2 := h1.step (.service (.newService _))
  have h3 := h2.step (.call (.send (k := 0) 1 requestFrom2 rfl))
  have h4 := h3.step (.call (.sendFound (k := 0) (r := 0) rfl rfl))
  have h5 := h4.step (.call (.kill (k := 1) 1 rfl))
  have h6 := h5.step (.call (.killFound (k := 1) (r := 0) rfl rfl))
  have h7 := h6.step (.call (.killErase (k := 1) rfl))
  have h8 := h7.step (.call (.killName (k := 1) rfl))
  have h9 := h8.step (.call (.killMark (k := 1) rfl))
  have h10 := h9.step (.call (.killRead (k := 1) (r := 0) rfl))
  have h11 := h10.step (.call (.killEnter (k := 1) (r := 0) rfl))
  have h12 := h11.step (.wake (.wakeTest (k := 1) rfl))
  have h13 := h12.step (.sleep (.take (w := 0) (r := 0) rfl rfl))
  have h14 := h13.step (.turn (.readLength (w := 0) rfl rfl))
  have h15 := h14.step (.turn (.processNone (w := 0) (i := 0) rfl rfl rfl))
  have h16 := h15.step (.turn (.testExiting (w := 0) rfl rfl rfl))
  have h17 := h16.step (.call (.sendPush (k := 0) rfl rfl))
  have h18 := h17.step (.call (.sendEnter (k := 0) rfl))
  have h19 := h18.step (.turn (.onExitReturn (w := 0) (r := 0) rfl rfl))
  have h20 := h19.step (.turn (.clearSend (w := 0) (k := 0) rfl rfl rfl rfl))
  have h21 := h20.step (.call (.sendFound (k := 0) (r := 1) rfl rfl))
  have h22 := h21.step (.call (.send (k := 2) 2 (request 1) rfl))
  have h23 := h22.step (.call (.sendFound (k := 2) (r := 1) rfl rfl))
  obtain ⟨ltr, run, -⟩ := locked_of_run h23
  have taken := run.step (.acquire (d := locking 1) (i := .call 2) (c := { lock := .queue 1 })
    ⟨rfl, rfl⟩ ?_)
  · refine ⟨_, _, taken, rfl, ?_, deadlockFree_of_run taken⟩
    refine ⟨.call 0, { lock := .queue 1 }, .call 2, { lock := .queue 1 }, .called (.drop rfl),
      ⟨rfl, rfl⟩, .call ?_, .inr (.inl (by simp [Discipline.idle])), rfl⟩
    intro i called
    cases called with
    | @drop w r k h =>
      rw [Subsingleton.elim w 0] at h
      have eq : WorkerPc.clearSend 0 0 = .clearSend r 2 := h
      simp at eq
    | killAll h => cases h
  · rintro j c' (kept | got | left) same
    · exfalso
      cases j with
      | worker w =>
        rw [Subsingleton.elim w 0] at kept
        have queue : c' = { lock := .queue 0 } := of_decide_eq_true kept
        rw [queue] at same
        simp at same
      | call | main | creator => cases kept
    · cases got
    · cases left

end Starnet.Core
