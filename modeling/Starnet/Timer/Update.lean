import Starnet.Lib.Transition
import Starnet.Timer.Pending

/-! Runs of `timer_add` and `timer_update`. The lock is free outside `timer_update` and while it
dispatches a list, so timers may be added at both. Each timer is dispatched once, in the update
that reaches its tick, and the timers of one tick are dispatched in the order in which they were
added. -/

namespace Starnet.Timer

open Transition

/-- Where the timer thread stands while the lock is free: outside `timer_update`, or inside
`dispatch_list` with the nodes that are left, before or after `timer_shift`. -/
inductive Pc
  | outside
  | dispatch (shifted : Bool) (rest : List TimerNode)
  deriving DecidableEq, Repr

/-- The nodes that `dispatch_list` has yet to dispatch. -/
def Pc.rest : Pc → List TimerNode
  | outside => []
  | dispatch _ rest => rest

/-- The wheel, the number of nodes allocated so far and the timer thread. -/
structure State where
  wheel : Wheel
  allocated : Nat
  pc : Pc

/-- What a step reports to the trace. -/
inductive Event
  | tau
  | add (node : TimerNode) (time : Nat)
  | shift
  | dispatch (node : TimerNode)
  deriving DecidableEq, Repr

namespace State

/-- The node that `timer_add` allocates. -/
def node (σ : State) (time : Nat) (event : TimerEvent) : TimerNode where
  addr := σ.allocated
  expire := UInt32.ofNat time + σ.wheel.time
  event

/-- The loop of `timer_execute` after `timer_shift`, up to the next point where the lock is
free. -/
def afterShift (σ : State) : State :=
  match σ.wheel.list σ.wheel.current with
  | [] => { σ with pc := .outside }
  | nodes => { σ with wheel := σ.wheel.linkClear σ.wheel.current, pc := .dispatch true nodes }

/-- The timer thread takes the lock to test the loop of the first `timer_execute`. -/
def Before (σ : State) : Prop := σ.pc = .outside ∨ σ.pc = .dispatch false []

end State

/-- The steps: a call of `timer_add`, and the parts of `timer_update` that run under one lock or
dispatch one node. -/
inductive Step : State → Event → State → Prop
  | add (σ : State) (time : Nat) (event : TimerEvent) (positive : 0 < time)
      (int : time < 2147483648) :
      Step σ (.add (σ.node time event) time)
        { σ with wheel := σ.wheel.addNode (σ.node time event), allocated := σ.allocated + 1 }
  | execute {σ : State} {node nodes} (h : σ.Before)
      (list : σ.wheel.list σ.wheel.current = node :: nodes) :
      Step σ .tau { σ with
        wheel := σ.wheel.linkClear σ.wheel.current
        pc := .dispatch false (node :: nodes) }
  | shift {σ : State} (h : σ.Before) (list : σ.wheel.list σ.wheel.current = []) :
      Step σ .shift { σ with wheel := σ.wheel.shift }.afterShift
  | dispatch {σ : State} {shifted node rest} (h : σ.pc = .dispatch shifted (node :: rest)) :
      Step σ (.dispatch node) { σ with pc := .dispatch shifted rest }
  | resume {σ : State} (h : σ.pc = .dispatch true []) : Step σ .tau σ.afterShift

/-- The timer from `timer_create_timer` on. -/
def timer : System State Event where
  init σ := σ = ⟨.createTimer, 0, .outside⟩
  step := Step

/-! ### What a trace says of the ticks -/

/-- The number of calls of `timer_shift`. -/
def ticks : List Event → Nat
  | [] => 0
  | .shift :: tr => ticks tr + 1
  | _ :: tr => ticks tr

/-- The nodes that `timer_add` allocated. -/
def added : List Event → List TimerNode
  | [] => []
  | .add node _ :: tr => node :: added tr
  | _ :: tr => added tr

/-- The timers that are due at tick `k`, in the order in which they were added; the trace starts at
tick `now`. -/
def dueAt (k : Nat) : Nat → List Event → List TimerNode
  | _, [] => []
  | now, .shift :: tr => dueAt k (now + 1) tr
  | now, .add node time :: tr =>
    if now + time = k then node :: dueAt k now tr else dueAt k now tr
  | now, _ :: tr => dueAt k now tr

/-- The timers that are dispatched while the clock stands at tick `k`; the trace starts at tick
`now`. -/
def dispatchedAt (k : Nat) : Nat → List Event → List TimerNode
  | _, [] => []
  | now, .shift :: tr => dispatchedAt k (now + 1) tr
  | now, .dispatch node :: tr =>
    if now = k then node :: dispatchedAt k now tr else dispatchedAt k now tr
  | now, _ :: tr => dispatchedAt k now tr

theorem ticks_append (tr tr' : List Event) : ticks (tr ++ tr') = ticks tr + ticks tr' := by
  induction tr with
  | nil => exact (Nat.zero_add _).symm
  | cons e tr ih =>
    cases e <;> simp only [List.cons_append, ticks, ih]
    omega

theorem added_append (tr tr' : List Event) : added (tr ++ tr') = added tr ++ added tr' := by
  induction tr with
  | nil => rfl
  | cons e tr ih => cases e <;> simp only [List.cons_append, added, ih]

theorem dueAt_append (k now : Nat) (tr tr' : List Event) :
    dueAt k now (tr ++ tr') = dueAt k now tr ++ dueAt k (now + ticks tr) tr' := by
  induction tr generalizing now with
  | nil => rfl
  | cons e tr ih =>
    cases e with
    | shift =>
      simp only [List.cons_append, dueAt, ticks, ih]
      rw [show now + 1 + ticks tr = now + (ticks tr + 1) by omega]
    | add node time =>
      simp only [List.cons_append, dueAt, ticks, ih]
      split <;> rfl
    | tau | dispatch => simp only [List.cons_append, dueAt, ticks, ih]

theorem dispatchedAt_append (k now : Nat) (tr tr' : List Event) :
    dispatchedAt k now (tr ++ tr') =
      dispatchedAt k now tr ++ dispatchedAt k (now + ticks tr) tr' := by
  induction tr generalizing now with
  | nil => rfl
  | cons e tr ih =>
    cases e with
    | shift =>
      simp only [List.cons_append, dispatchedAt, ticks, ih]
      rw [show now + 1 + ticks tr = now + (ticks tr + 1) by omega]
    | dispatch node =>
      simp only [List.cons_append, dispatchedAt, ticks, ih]
      split <;> rfl
    | tau | add => simp only [List.cons_append, dispatchedAt, ticks, ih]

/-! ### The refinement -/

/-- The wheel holds the timers that are due after the current tick. The timers due up to the current
tick are dispatched, at their ticks and in order, apart from those that `dispatch_list` still has at
hand. -/
structure Refines (σ : State) (tr : List Event) (pending : List Due) : Prop where
  holds : σ.wheel.Holds (ticks tr) pending
  future : ∀ p ∈ pending, ticks tr < p.2
  waiting : ∀ k, ticks tr < k → dueAt k 0 tr = (pending.filter fun p => p.2 = k).map Prod.fst
  past : ∀ k, k < ticks tr → dispatchedAt k 0 tr = dueAt k 0 tr
  present : dispatchedAt (ticks tr) 0 tr ++ σ.pc.rest = dueAt (ticks tr) 0 tr
  ahead : ∀ k, ticks tr < k → dispatchedAt k 0 tr = []
  shifted : ∀ rest, σ.pc ≠ .dispatch false rest
  expire : ∀ k, ∀ node ∈ dueAt k 0 tr, node.expire = UInt32.ofNat k
  addrs : (added tr).map TimerNode.addr = List.range σ.allocated

namespace Refines

variable {σ σ' : State} {tr : List Event} {pending : List Due} {e : Event}

theorem initial : Refines ⟨.createTimer, 0, .outside⟩ [] [] := by
  constructor
  · exact Wheel.createTimer_holds
  all_goals simp [dueAt, dispatchedAt, ticks, Pc.rest, added]

/-- The current list is empty while the lock is free. -/
theorem current_nil (r : Refines σ tr pending) : σ.wheel.list σ.wheel.current = [] := by
  rw [Wheel.list_current r.holds, List.filter_eq_nil_iff.mpr, List.map_nil]
  intro p mem
  have := r.future p mem
  simp only [decide_eq_true_eq]
  omega

theorem tau_append (tr : List Event) : ticks (tr ++ [.tau]) = ticks tr ∧
    (∀ k, dueAt k 0 (tr ++ [.tau]) = dueAt k 0 tr) ∧
    (∀ k, dispatchedAt k 0 (tr ++ [.tau]) = dispatchedAt k 0 tr) ∧
    added (tr ++ [.tau]) = added tr := by
  refine ⟨?_, fun k => ?_, fun k => ?_, ?_⟩
  · rw [ticks_append]
    rfl
  · rw [dueAt_append]
    exact List.append_nil _
  · rw [dispatchedAt_append]
    exact List.append_nil _
  · rw [added_append]
    exact List.append_nil _

/-- The end of the second `timer_execute`. -/
theorem resume (r : Refines σ tr pending) (h : σ.pc = .dispatch true []) :
    Refines σ.afterShift (tr ++ [.tau]) pending := by
  obtain ⟨now, due, done, nodes⟩ := tau_append tr
  have left : σ.afterShift = { σ with pc := .outside } := by
    unfold State.afterShift
    rw [r.current_nil]
  have present := r.present
  rw [h] at present
  rw [left]
  constructor
  · rw [now]
    exact r.holds
  · rw [now]
    exact r.future
  · simp only [now, due]
    exact r.waiting
  · simp only [now, due, done]
    exact r.past
  · simp only [now, due, done]
    exact present
  · simp only [now, done]
    exact r.ahead
  · exact fun rest => by simp
  · simp only [due]
    exact r.expire
  · rw [nodes]
    exact r.addrs

theorem dispatch (r : Refines σ tr pending) {shifted : Bool} {node : TimerNode}
    {rest : List TimerNode} (h : σ.pc = .dispatch shifted (node :: rest)) :
    Refines { σ with pc := .dispatch shifted rest } (tr ++ [.dispatch node]) pending := by
  have now : ticks (tr ++ [.dispatch node]) = ticks tr := ticks_append ..
  have due : ∀ k, dueAt k 0 (tr ++ [.dispatch node]) = dueAt k 0 tr := fun k => by
    rw [dueAt_append]
    exact List.append_nil _
  have done : ∀ k, dispatchedAt k 0 (tr ++ [.dispatch node]) =
      dispatchedAt k 0 tr ++ if ticks tr = k then [node] else [] := fun k => by
    rw [dispatchedAt_append, Nat.zero_add]
    rfl
  have other : ∀ k, ticks tr ≠ k → dispatchedAt k 0 (tr ++ [.dispatch node]) =
      dispatchedAt k 0 tr := fun k ne => by
    rw [done, if_neg ne, List.append_nil]
  constructor
  · rw [now]
    exact r.holds
  · rw [now]
    exact r.future
  · simp only [now, due]
    exact r.waiting
  · intro k hk
    rw [now] at hk
    rw [other k hk.ne', due]
    exact r.past k hk
  · have present := r.present
    rw [h] at present
    rw [now, due, done, if_pos rfl, List.append_assoc]
    exact present
  · intro k hk
    rw [now] at hk
    rw [other k hk.ne]
    exact r.ahead k hk
  · intro rest' eq
    cases eq
    exact r.shifted _ h
  · simp only [due]
    exact r.expire
  · rw [added_append]
    simpa [added] using r.addrs

theorem add (r : Refines σ tr pending) {time : Nat} (event : TimerEvent) (positive : 0 < time)
    (int : time < 2147483648) :
    Refines { σ with wheel := σ.wheel.addNode (σ.node time event), allocated := σ.allocated + 1 }
      (tr ++ [.add (σ.node time event) time])
      (pending ++ [(σ.node time event, ticks tr + time)]) := by
  have now : ticks (tr ++ [.add (σ.node time event) time]) = ticks tr := ticks_append ..
  have due : ∀ k, dueAt k 0 (tr ++ [.add (σ.node time event) time]) =
      dueAt k 0 tr ++ if ticks tr + time = k then [σ.node time event] else [] := fun k => by
    rw [dueAt_append, Nat.zero_add]
    rfl
  have early : ∀ k, k ≤ ticks tr → dueAt k 0 (tr ++ [.add (σ.node time event) time]) =
      dueAt k 0 tr := fun k le => by
    rw [due, if_neg (by omega), List.append_nil]
  have done : ∀ k, dispatchedAt k 0 (tr ++ [.add (σ.node time event) time]) =
      dispatchedAt k 0 tr := fun k => by
    rw [dispatchedAt_append]
    exact List.append_nil _
  have expire : (σ.node time event).expire = UInt32.ofNat (ticks tr + time) := by
    rw [State.node, r.holds.time, UInt32.ofNat_add, UInt32.add_comm]
  constructor
  · rw [now]
    exact Wheel.addNode_holds r.holds expire (by omega) (by omega)
  · intro p mem
    rw [now]
    rcases List.mem_append.mp mem with old | new
    · exact r.future p old
    · rw [List.mem_singleton.mp new]
      dsimp only
      omega
  · intro k hk
    rw [now] at hk
    rw [due, r.waiting k hk, List.filter_append, List.map_append]
    by_cases at_k : ticks tr + time = k <;> simp [at_k]
  · intro k hk
    rw [now] at hk
    rw [done, early k hk.le]
    exact r.past k hk
  · rw [now, done, early _ le_rfl]
    exact r.present
  · intro k hk
    rw [now] at hk
    rw [done]
    exact r.ahead k hk
  · exact r.shifted
  · intro k node mem
    rw [due] at mem
    rcases List.mem_append.mp mem with old | new
    · exact r.expire k node old
    · split at new
      · rename_i at_k
        rw [List.mem_singleton.mp new, expire, at_k]
      · contradiction
  · rw [added_append, List.map_append, r.addrs, List.range_succ]
    rfl

/-- `afterShift` takes the timers of the current tick out of the wheel and dispatches them. -/
theorem afterShift_spec {now : Nat} (h : σ.wheel.Holds now pending) :
    σ.afterShift.wheel.Holds now (pending.filter fun p => p.2 ≠ now) ∧
      σ.afterShift.pc.rest = (pending.filter fun p => p.2 = now).map Prod.fst ∧
      (∀ rest, σ.afterShift.pc ≠ .dispatch false rest) ∧
      σ.afterShift.allocated = σ.allocated := by
  have current := Wheel.list_current h
  have cleared := Wheel.linkClear_holds h
  unfold State.afterShift
  split
  · rename_i empty
    rw [empty] at current
    have none := List.map_eq_nil_iff.mp current.symm
    have all : (pending.filter fun p => p.2 ≠ now) = pending := by
      refine List.filter_eq_self.mpr fun p mem => ?_
      simpa using List.filter_eq_nil_iff.mp none p mem
    rw [all]
    exact ⟨h, current, by simp, rfl⟩
  · exact ⟨cleared, current, by simp, rfl⟩

theorem shift (r : Refines σ tr pending) (h : σ.Before) :
    Refines { σ with wheel := σ.wheel.shift }.afterShift (tr ++ [.shift])
      (pending.filter fun p => p.2 ≠ ticks tr + 1) := by
  have now : ticks (tr ++ [.shift]) = ticks tr + 1 := ticks_append ..
  have due : ∀ k, dueAt k 0 (tr ++ [.shift]) = dueAt k 0 tr := fun k => by
    rw [dueAt_append]
    exact List.append_nil _
  have done : ∀ k, dispatchedAt k 0 (tr ++ [.shift]) = dispatchedAt k 0 tr := fun k => by
    rw [dispatchedAt_append]
    exact List.append_nil _
  have rest : σ.pc.rest = [] := by
    rcases h with h | h <;> rw [h] <;> rfl
  have shifted := Wheel.shift_holds r.holds r.future
  obtain ⟨holds, nodes, pc, allocated⟩ :=
    afterShift_spec (σ := { σ with wheel := σ.wheel.shift }) shifted
  constructor
  · rw [now]
    exact holds
  · intro p mem
    rw [now]
    obtain ⟨mem, ne⟩ := List.mem_filter.mp mem
    have := r.future p mem
    simp only [decide_eq_true_eq] at ne
    omega
  · intro k hk
    rw [now] at hk
    rw [due, r.waiting k (by omega), List.filter_filter]
    refine congrArg _ (List.filter_congr fun p _ => ?_)
    by_cases at_k : p.2 = k
    · simp [at_k, show k ≠ ticks tr + 1 by omega]
    · simp [at_k]
  · intro k hk
    rw [now] at hk
    rw [done, due]
    rcases Nat.lt_succ_iff_lt_or_eq.mp hk with earlier | rfl
    · exact r.past k earlier
    · have present := r.present
      rwa [rest, List.append_nil] at present
  · rw [now, done, due, r.ahead _ (Nat.lt_succ_self _), nodes, r.waiting _ (Nat.lt_succ_self _)]
    rfl
  · intro k hk
    rw [now] at hk
    rw [done]
    exact r.ahead k (by omega)
  · exact pc
  · simp only [due]
    exact r.expire
  · rw [added_append, allocated]
    simpa [added] using r.addrs

theorem step (r : Refines σ tr pending) (step : Step σ e σ') :
    ∃ pending', Refines σ' (tr ++ [e]) pending' := by
  cases step with
  | add time event positive int => exact ⟨_, r.add event positive int⟩
  | execute h list =>
    rw [r.current_nil] at list
    contradiction
  | shift h => exact ⟨_, r.shift h⟩
  | dispatch h => exact ⟨_, r.dispatch h⟩
  | resume h => exact ⟨_, r.resume h⟩

theorem run (run : timer.Run σ tr) : ∃ pending, Refines σ tr pending := by
  refine run.invariant (P := fun σ tr => ∃ pending, Refines σ tr pending) ?_ ?_
  · rintro _ rfl
    exact ⟨[], initial⟩
  · rintro _ _ _ _ _ ⟨pending, r⟩ step
    exact r.step step

end Refines

/-- In every run the clock is the number of ticks modulo 2^32, and no two timers are the same. A
timer added at tick `t` with the delay `d` is dispatched at tick `t + d`, at which the clock shows
its `expire`: the timers dispatched at a past tick are those due at that tick, in the order in which
they were added, the ones of the present tick are dispatched or at hand in `dispatch_list`, and none
is dispatched before its tick. -/
theorem dispatched_when_due {σ : State} {tr : List Event} (run : timer.Run σ tr) :
    σ.wheel.time = UInt32.ofNat (ticks tr) ∧ (added tr).Nodup ∧
      (∀ k, ∀ node ∈ dueAt k 0 tr, node.expire = UInt32.ofNat k) ∧
      (∀ k, k < ticks tr → dispatchedAt k 0 tr = dueAt k 0 tr) ∧
      dispatchedAt (ticks tr) 0 tr ++ σ.pc.rest = dueAt (ticks tr) 0 tr ∧
      ∀ k, ticks tr < k → dispatchedAt k 0 tr = [] := by
  obtain ⟨pending, r⟩ := Refines.run run
  have distinct : (added tr).Nodup := by
    refine List.Nodup.of_map TimerNode.addr ?_
    rw [r.addrs]
    exact List.nodup_range
  exact ⟨r.holds.time, distinct, r.expire, r.past, r.present, r.ahead⟩

/-- Two timers of tick 2, added at ticks 0 and 1, are dispatched at tick 2 in this order. -/
theorem dispatched_when_due_two : ∃ (σ : State) (tr : List Event) (a b : TimerNode),
    timer.Run σ tr ∧ a.event.session = 1 ∧ b.event.session = 2 ∧ ticks tr = 2 ∧
      dispatchedAt 2 0 tr ++ σ.pc.rest = [a, b] := by
  have h0 : timer.Run _ _ := .init rfl
  have h1 := h0.step (.add _ 2 ⟨1, 1⟩ (by decide) (by decide))
  have h2 := h1.step (.shift (.inl rfl) rfl)
  have h3 := h2.step (.add _ 1 ⟨1, 2⟩ (by decide) (by decide))
  have h4 := h3.step (.shift (.inl rfl) rfl)
  have h5 := h4.step (@Step.dispatch _ true _ _ rfl)
  exact ⟨_, _, _, _, h5, rfl, rfl, rfl, (dispatched_when_due h5).2.2.2.2.1⟩

end Starnet.Timer
