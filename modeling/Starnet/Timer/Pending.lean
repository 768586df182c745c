import Starnet.Timer.Wheel

/-! The wheel as a list of pending timers. Each timer is paired with the tick at which it is due,
counted from the creation of the wheel; the lists of the wheel are this list, sorted into the
timers' places. -/

namespace Starnet.Timer

/-- A node of the wheel and the tick at which it is due. -/
abbrev Due := TimerNode × Nat

namespace Wheel

variable {T : Wheel} {now : Nat} {pending : List Due}

/-- At tick `now` the lists of the wheel hold the timers of `pending`, each in its place and in the
order of the list, and none is due 2^31 ticks ahead. -/
structure Holds (T : Wheel) (now : Nat) (pending : List Due) : Prop where
  time : T.time = UInt32.ofNat now
  lists : Buckets.Sorts Prod.fst (fun p : Due => place p.2 now) pending T.list
  expire : ∀ p ∈ pending, p.1.expire = UInt32.ofNat p.2
  after : ∀ p ∈ pending, now ≤ p.2
  window : ∀ p ∈ pending, p.2 < now + 2147483648

theorem createTimer_holds : createTimer.Holds 0 [] := by
  constructor
  · rfl
  · exact fun _ => rfl
  all_goals simp

theorem addNode_holds (h : T.Holds now pending) {node : TimerNode} {due : Nat}
    (expire : node.expire = UInt32.ofNat due) (after : now ≤ due)
    (window : due < now + 2147483648) : (T.addNode node).Holds now (pending ++ [(node, due)]) := by
  constructor
  · exact h.time
  · have added := h.lists.add (node, due)
    rwa [← slotOf_eq after window, ← expire, ← h.time] at added
  all_goals
    intro p mem
    rcases List.mem_append.mp mem with old | new
    · first
      | exact h.expire p old
      | exact h.after p old
      | exact h.window p old
    · obtain rfl := List.mem_singleton.mp new
      assumption

theorem foldl_addNode (nodes : List TimerNode) (T : Wheel) :
    nodes.foldl addNode T = { T with
      list := nodes.foldl
        (fun list node => Buckets.append list (slotOf node.expire T.time) node) T.list } := by
  induction nodes generalizing T with
  | nil => rfl
  | cons node nodes ih => exact ih (T.addNode node)

/-- The timers of one list move to the lists of the new tick. -/
theorem moveList_lists (h : T.Holds now pending) {l i : Nat}
    (moves : cascade (now + 1) = some (l, i)) (future : ∀ p ∈ pending, now < p.2) :
    Buckets.Sorts Prod.fst (fun p : Due => place p.2 (now + 1)) pending
      ((T.setTime (now + 1)).moveList l i).list := by
  have high : ¬ (Slot.t l i).Below l := Nat.lt_irrefl l
  have moved := h.lists.move high
    (fun p mem => (place_of_cascade moves (future p mem) (h.window p mem)).1)
    (fun p mem => (place_of_cascade moves (future p mem) (h.window p mem)).2)
  have nodes : (T.setTime (now + 1)).list (.t l i) =
      (pending.filter fun p => place p.2 now = .t l i).map Prod.fst := h.lists (.t l i)
  have lists : ((T.setTime (now + 1)).moveList l i).list =
      (pending.filter fun p => place p.2 now = .t l i).foldl
        (fun list p => Buckets.append list (place p.2 (now + 1)) p.1)
        (Function.update T.list (.t l i) []) := by
    rw [moveList, nodes, foldl_addNode, List.foldl_map]
    refine List.foldl_ext _ _ _ fun list p mem => ?_
    have here := List.mem_of_mem_filter mem
    have window := h.window p here
    rw [h.expire p here]
    congr 1
    exact slotOf_eq (future p here) (by omega)
  rw [lists]
  exact moved

/-- `timer_shift` takes the wheel to the next tick. -/
theorem shift_holds (h : T.Holds now pending) (future : ∀ p ∈ pending, now < p.2) :
    T.shift.Holds (now + 1) pending := by
  have window : ∀ p ∈ pending, p.2 < now + 1 + 2147483648 := fun p mem => by
    have := h.window p mem
    omega
  rw [shift_eq h.time]
  cases moves : cascade (now + 1) with
  | none =>
    exact ⟨rfl, h.lists.congr fun p _ => place_of_cascade_none moves, h.expire, future, window⟩
  | some move =>
    obtain ⟨l, i⟩ := move
    refine ⟨?_, moveList_lists h moves future, h.expire, future, window⟩
    dsimp only
    rw [moveList, foldl_addNode]
    rfl

/-- The list that `timer_execute` reads. -/
def current (T : Wheel) : Slot := .near (T.time &&& timeNearMask).toNat

theorem current_eq (h : T.Holds now pending) : T.current = .near (now % 256) := by
  rw [current, near_index, h.time, UInt32.toNat_ofNat']
  congr 1
  omega

theorem place_eq_current {due : Nat} : place due now = .near (now % 256) ↔ due = now := by
  unfold place
  split_ifs with near
  · simp only [Slot.near.injEq]
    omega
  all_goals
    simp only [false_iff]
    omega

/-- The current list holds the timers that are due now. -/
theorem list_current (h : T.Holds now pending) :
    T.list T.current = (pending.filter fun p => p.2 = now).map Prod.fst := by
  rw [current_eq h, h.lists]
  exact congrArg _ (List.filter_congr fun p _ =>
    decide_eq_decide.mpr place_eq_current)

/-- `link_clear` of the current list takes the timers that are due now. -/
theorem linkClear_holds (h : T.Holds now pending) :
    (T.linkClear T.current).Holds now (pending.filter fun p => p.2 ≠ now) := by
  have kept : (pending.filter fun p => p.2 ≠ now) =
      pending.filter fun p => place p.2 now ≠ T.current :=
    List.filter_congr fun p mem => by
      rw [current_eq h]
      exact decide_eq_decide.mpr (not_congr place_eq_current.symm)
  refine ⟨h.time, ?_, ?_, ?_, ?_⟩
  · rw [kept]
    exact h.lists.clear T.current
  · exact fun p mem => h.expire p (List.mem_of_mem_filter mem)
  · exact fun p mem => h.after p (List.mem_of_mem_filter mem)
  · exact fun p mem => h.window p (List.mem_of_mem_filter mem)

end Wheel

end Starnet.Timer
