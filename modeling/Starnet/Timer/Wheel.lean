import Mathlib.Data.List.Nodup
import Mathlib.Data.Nat.Bitwise
import Mathlib.Tactic.IntervalCases
import Mathlib.Tactic.SplitIfs
import Starnet.Lib.Buckets

/-! The timer wheel of `starnet_timer.cpp`: 256 lists for the ticks of the current block of 256, and
four levels of 64 lists for blocks that lie further ahead. -/

namespace Starnet.Timer

/-- `TIME_NEAR_SHIFT`. -/
def timeNearShift : Nat := 8

/-- `TIME_LEVEL_SHIFT`. -/
def timeLevelShift : Nat := 6

/-- `TIME_NEAR_MASK`. -/
def timeNearMask : UInt32 := 255

/-- `TIME_LEVEL_MASK`. -/
def timeLevelMask : UInt32 := 63

/-- `struct timer_event`. -/
structure TimerEvent where
  handle : UInt32
  session : Int32
  deriving DecidableEq, Repr

/-- `struct timer_node` and the event behind it. `addr` tells the nodes apart: it counts the nodes
allocated before. -/
structure TimerNode where
  addr : Nat
  expire : UInt32
  event : TimerEvent
  deriving DecidableEq, Repr

/-- A list of the wheel: `near[i]` or `t[level][i]`. -/
inductive Slot
  | near (i : Nat)
  | t (level i : Nat)
  deriving DecidableEq, Repr

/-- `struct timer`: its lists and its time. -/
structure Wheel where
  list : Slot → List TimerNode
  time : UInt32

/-- The loop of `add_node` that looks for the level: the rounds left, `mask` and `i`. -/
def findLevel (time currentTime : UInt32) : Nat → UInt32 → Nat → Nat
  | 0, _, i => i
  | rounds + 1, mask, i =>
    if time ||| (mask - 1) = currentTime ||| (mask - 1) then i
    else findLevel time currentTime rounds (mask <<< timeLevelShift.toUInt32) (i + 1)

/-- The list to which `add_node` links a node that expires at `time`. -/
def slotOf (time currentTime : UInt32) : Slot :=
  if time ||| timeNearMask = currentTime ||| timeNearMask then
    .near (time &&& timeNearMask).toNat
  else
    let i := findLevel time currentTime 3
      ((timeNearMask + 1) <<< timeLevelShift.toUInt32) 0
    .t i ((time >>> (timeNearShift + i * timeLevelShift).toUInt32) &&& timeLevelMask).toNat

namespace Wheel

/-- `timer_create_timer`. -/
def createTimer : Wheel where
  list _ := []
  time := 0

/-- `add_node`. -/
def addNode (T : Wheel) (node : TimerNode) : Wheel :=
  { T with list := Buckets.append T.list (slotOf node.expire T.time) node }

/-- `link_clear`. -/
def linkClear (T : Wheel) (slot : Slot) : Wheel :=
  { T with list := Function.update T.list slot [] }

/-- `move_list`. -/
def moveList (T : Wheel) (level idx : Nat) : Wheel :=
  (T.list (.t level idx)).foldl addNode (T.linkClear (.t level idx))

/-- The loop of `timer_shift`: the levels left, `mask`, `time` and `i`. The lowest level whose index
is not 0 is moved; there is one while the time is not 0. -/
def shiftLevel (T : Wheel) : Nat → UInt32 → UInt32 → Nat → Wheel
  | 0, _, _, _ => T
  | rounds + 1, mask, time, i =>
    if T.time &&& (mask - 1) = 0 then
      let idx := (time &&& timeLevelMask).toNat
      if idx ≠ 0 then T.moveList i idx
      else shiftLevel T rounds (mask <<< timeLevelShift.toUInt32)
        (time >>> timeLevelShift.toUInt32) (i + 1)
    else T

/-- `timer_shift`. -/
def shift (T : Wheel) : Wheel :=
  let T := { T with time := T.time + 1 }
  if T.time = 0 then T.moveList 3 0
  else T.shiftLevel 4 (timeNearMask + 1) (T.time >>> timeNearShift.toUInt32) 0

end Wheel

/-! ### The place of a timer -/

/-- The list of a timer that is due at tick `due` while the clock stands at tick `now`, both counted
from the creation of the wheel. -/
def place (due now : Nat) : Slot :=
  if due / 256 = now / 256 then .near (due % 256)
  else if due / 16384 = now / 16384 then .t 0 (due / 256 % 64)
  else if due / 1048576 = now / 1048576 then .t 1 (due / 16384 % 64)
  else if due / 67108864 = now / 67108864 then .t 2 (due / 1048576 % 64)
  else .t 3 (due / 67108864 % 64)

/-- Two numbers with the same low bits set agree exactly if they lie in the same block. -/
theorem or_mask_eq_iff (a b k : Nat) :
    a ||| (2 ^ k - 1) = b ||| (2 ^ k - 1) ↔ a / 2 ^ k = b / 2 ^ k := by
  constructor
  · intro h
    refine Nat.eq_of_testBit_eq fun i => ?_
    have bit := congrArg (fun n => n.testBit (k + i)) h
    simp only [Nat.testBit_or, Nat.testBit_two_pow_sub_one] at bit
    rw [Nat.testBit_div_two_pow, Nat.testBit_div_two_pow, Nat.add_comm i k]
    simpa [show ¬ k + i < k by omega] using bit
  · intro h
    refine Nat.eq_of_testBit_eq fun i => ?_
    rw [Nat.testBit_or, Nat.testBit_or, Nat.testBit_two_pow_sub_one]
    by_cases low : i < k
    · simp [low]
    · obtain ⟨j, rfl⟩ := Nat.exists_eq_add_of_le (Nat.not_lt.mp low)
      have bit := congrArg (fun n => n.testBit j) h
      simp only [Nat.testBit_div_two_pow] at bit
      rw [Nat.add_comm k j, bit]

theorem mask_eq_iff {a b : UInt32} (mask : UInt32) (k : Nat) (hmask : mask.toNat = 2 ^ k - 1) :
    a ||| mask = b ||| mask ↔ a.toNat / 2 ^ k = b.toNat / 2 ^ k := by
  rw [← UInt32.toNat_inj, UInt32.toNat_or, UInt32.toNat_or, hmask]
  exact or_mask_eq_iff _ _ k

theorem near_index (time : UInt32) : (time &&& timeNearMask).toNat = time.toNat % 256 := by
  rw [UInt32.toNat_and, show timeNearMask.toNat = 2 ^ 8 - 1 from rfl,
    Nat.and_two_pow_sub_one_eq_mod]

theorem level_index (time : UInt32) : (time &&& timeLevelMask).toNat = time.toNat % 64 := by
  rw [UInt32.toNat_and, show timeLevelMask.toNat = 2 ^ 6 - 1 from rfl,
    Nat.and_two_pow_sub_one_eq_mod]

theorem toNat_shiftRight {t : UInt32} (shift : Nat) (h : shift < 32) :
    (t >>> shift.toUInt32).toNat = t.toNat / 2 ^ shift := by
  have small : shift.toUInt32.toNat % 32 = shift := by
    rw [Nat.toUInt32, UInt32.toNat_ofNat']
    omega
  rw [UInt32.toNat_shiftRight, small, Nat.shiftRight_eq_div_pow]

theorem findLevel_eq (a b : UInt32) :
    findLevel a b 3 ((timeNearMask + 1) <<< timeLevelShift.toUInt32) 0 =
      if a.toNat / 16384 = b.toNat / 16384 then 0
      else if a.toNat / 1048576 = b.toNat / 1048576 then 1
      else if a.toNat / 67108864 = b.toNat / 67108864 then 2 else 3 := by
  have mask0 : (timeNearMask + 1) <<< timeLevelShift.toUInt32 = 16384 := by decide
  have mask1 : (16384 : UInt32) <<< timeLevelShift.toUInt32 = 1048576 := by decide
  have mask2 : (1048576 : UInt32) <<< timeLevelShift.toUInt32 = 67108864 := by decide
  simp only [findLevel, mask0, mask1, mask2, mask_eq_iff (16384 - 1) 14 (by decide),
    mask_eq_iff (1048576 - 1) 20 (by decide),
    mask_eq_iff (67108864 - 1) 26 (by decide)]
  rfl

/-- `add_node` finds the list of a timer that is less than 2^31 ticks ahead. -/
theorem slotOf_eq {due now : Nat} (after : now ≤ due) (window : due < now + 2147483648) :
    slotOf (UInt32.ofNat due) (UInt32.ofNat now) = place due now := by
  have hdue : (UInt32.ofNat due).toNat = due % 4294967296 := UInt32.toNat_ofNat'
  have hnow : (UInt32.ofNat now).toNat = now % 4294967296 := UInt32.toNat_ofNat'
  have near : due % 4294967296 / 2 ^ 8 = now % 4294967296 / 2 ^ 8 ↔ due / 256 = now / 256 := by
    omega
  have level0 : due % 4294967296 / 16384 = now % 4294967296 / 16384 ↔
      due / 16384 = now / 16384 := by omega
  have level1 : due % 4294967296 / 1048576 = now % 4294967296 / 1048576 ↔
      due / 1048576 = now / 1048576 := by omega
  have level2 : due % 4294967296 / 67108864 = now % 4294967296 / 67108864 ↔
      due / 67108864 = now / 67108864 := by omega
  unfold slotOf place
  rw [findLevel_eq]
  simp only [mask_eq_iff timeNearMask 8 (by decide), near_index, hdue, hnow, near,
    level0, level1, level2]
  split_ifs
  · rw [show due % 4294967296 % 256 = due % 256 by omega]
  all_goals
    rw [level_index, toNat_shiftRight _ (by decide), hdue]
    simp only [timeNearShift, timeLevelShift, Slot.t.injEq, true_and]
    omega

/-! ### The lists of the wheel -/

/-- The arrays `near` and `t`. -/
def slots : List Slot :=
  (List.range 256).map Slot.near ++
    (List.range 4).flatMap fun level => (List.range 64).map (Slot.t level)

theorem slots_nodup : slots.Nodup := by
  refine List.nodup_append.mpr ⟨?_, List.nodup_flatMap.mpr ⟨fun level _ => ?_, ?_⟩, ?_⟩
  · exact List.Nodup.map (fun i j eq => Slot.near.inj eq) List.nodup_range
  · exact List.Nodup.map (fun i j eq => (Slot.t.inj eq).2) List.nodup_range
  · refine List.nodup_range.imp fun {level level'} ne => ?_
    intro slot mem mem'
    obtain ⟨i, -, rfl⟩ := List.mem_map.mp mem
    obtain ⟨i', -, eq⟩ := List.mem_map.mp mem'
    exact ne (Slot.t.inj eq).1.symm
  · intro slot mem slot' mem' eq
    obtain ⟨i, -, rfl⟩ := List.mem_map.mp mem
    obtain ⟨level, -, mem'⟩ := List.mem_flatMap.mp mem'
    obtain ⟨i', -, rfl⟩ := List.mem_map.mp mem'
    cases eq

/-- `add_node` links a node to a list of the arrays. -/
theorem slotOf_mem (time currentTime : UInt32) : slotOf time currentTime ∈ slots := by
  unfold slotOf
  split
  · refine List.mem_append_left _ (List.mem_map.mpr ⟨_, List.mem_range.mpr ?_, rfl⟩)
    rw [near_index]
    exact Nat.mod_lt _ (by decide)
  · dsimp only
    refine List.mem_append_right _ (List.mem_flatMap.mpr ⟨_, List.mem_range.mpr ?_,
      List.mem_map.mpr ⟨_, List.mem_range.mpr ?_, rfl⟩⟩)
    · rw [findLevel_eq]
      split_ifs <;> decide
    · rw [level_index]
      exact Nat.mod_lt _ (by decide)

namespace Wheel

/-- The nodes in the lists of the wheel. -/
def nodes (T : Wheel) : List TimerNode := slots.flatMap T.list

theorem nodes_addNode (T : Wheel) (node : TimerNode) :
    (T.addNode node).nodes.Perm (T.nodes ++ [node]) :=
  Buckets.flatMap_append_perm T.list slots_nodup (slotOf_mem ..) node

end Wheel

/-! ### Cascades -/

/-- The list lies below level `l`. -/
def Slot.Below (l : Nat) : Slot → Prop
  | .near _ => True
  | .t level _ => level < l

/-- The level and the index that `timer_shift` moves when the clock reaches tick `t`. -/
def cascade (t : Nat) : Option (Nat × Nat) :=
  if t % 256 ≠ 0 then none
  else if t / 256 % 64 ≠ 0 then some (0, t / 256 % 64)
  else if t / 16384 % 64 ≠ 0 then some (1, t / 16384 % 64)
  else if t / 1048576 % 64 ≠ 0 then some (2, t / 1048576 % 64)
  else some (3, t / 67108864 % 64)

/-- The ticks in a block of level `l`. -/
def block : Nat → Nat
  | 0 => 256
  | 1 => 16384
  | 2 => 1048576
  | _ => 67108864

theorem below_iff {due now l : Nat} (h : l ≤ 3) :
    (place due now).Below l ↔ due / block l = now / block l := by
  unfold place
  interval_cases l <;> simp only [block] <;> split_ifs <;>
    simp only [Slot.Below, true_iff] <;> omega

theorem place_eq_iff {due now l i : Nat} (h : l ≤ 3) :
    place due now = .t l i ↔ due / block l ≠ now / block l ∧
      (l < 3 → due / block (l + 1) = now / block (l + 1)) ∧ i = due / block l % 64 := by
  unfold place
  interval_cases l <;> simp only [block] <;> split_ifs <;>
    simp only [Slot.t.injEq, reduceCtorEq, false_and, false_iff, eq_self, true_and] <;> omega

/-- The place depends on the blocks in which the timer and the clock stand. -/
theorem place_congr {due now now' : Nat}
    (h : ∀ l ≤ 3, due / block l = now / block l ↔ due / block l = now' / block l) :
    place due now = place due now' := by
  have h0 := h 0 (by omega)
  have h1 := h 1 (by omega)
  have h2 := h 2 (by omega)
  have h3 := h 3 (by omega)
  simp only [block] at h0 h1 h2 h3
  unfold place
  simp only [h0, h1, h2, h3]

/-- A block consists of whole blocks of the lower levels. -/
theorem block_dvd_block {l l' : Nat} (le : l' ≤ l) (h : l ≤ 3) : block l' ∣ block l := by
  interval_cases l <;> interval_cases l' <;> decide

theorem mod_block_of_le {t l l' : Nat} (le : l' ≤ l) (h : l ≤ 3) (starts : t % block l = 0) :
    t % block l' = 0 :=
  Nat.mod_eq_zero_of_dvd
    ((block_dvd_block le h).trans (Nat.dvd_of_mod_eq_zero starts))

theorem div_block_of_le {a b l l' : Nat} (le : l' ≤ l) (h : l ≤ 3)
    (same : a / block l' = b / block l') : a / block l = b / block l := by
  obtain ⟨k, whole⟩ := block_dvd_block le h
  rw [whole, ← Nat.div_div_eq_div_mul, same, Nat.div_div_eq_div_mul]

/-- At the start of a block the clock leaves the one before. -/
theorem div_lt_of_starts {due now b : Nat} (starts : (now + 1) % b = 0) (after : now < due) :
    now / b < due / b := by
  calc now / b < (now + 1) / b := by
        rw [Nat.succ_div, if_pos (Nat.dvd_of_mod_eq_zero starts)]
        exact Nat.lt_succ_self _
    _ ≤ due / b := Nat.div_le_div_right after

theorem div_succ_of_inside {now b : Nat} (inside : (now + 1) % b ≠ 0) : (now + 1) / b = now / b := by
  rw [Nat.succ_div, if_neg fun dvd => inside (Nat.mod_eq_zero_of_dvd dvd), Nat.add_zero]

/-- Between two cascades no timer changes its list. -/
theorem place_of_cascade_none {due now : Nat} (h : cascade (now + 1) = none) :
    place due (now + 1) = place due now := by
  have inside : (now + 1) % 256 ≠ 0 := by
    unfold cascade at h
    split_ifs at h with inside
    exact inside
  refine place_congr fun l hl => ?_
  have inside' : (now + 1) % block l ≠ 0 := fun starts =>
    inside (mod_block_of_le (Nat.zero_le l) hl starts)
  rw [div_succ_of_inside inside']

/-- The tick of a cascade starts a block of its level, and of no higher level. -/
theorem cascade_some {t l i : Nat} (h : cascade t = some (l, i)) :
    l ≤ 3 ∧ t % block l = 0 ∧ (l < 3 → t % block (l + 1) ≠ 0) ∧ i = t / block l % 64 := by
  unfold cascade at h
  split_ifs at h <;> cases h <;> refine ⟨by omega, ?_, fun lt => ?_, rfl⟩ <;>
    simp only [block, Nat.reduceAdd] <;> omega

/-- A cascade moves the timers of one list to lower ones, and no other timer changes its list. -/
theorem place_of_cascade {due now l i : Nat} (h : cascade (now + 1) = some (l, i))
    (after : now < due) (window : due < now + 2147483648) :
    (place due now = .t l i → (place due (now + 1)).Below l) ∧
      (place due now ≠ .t l i →
        place due (now + 1) = place due now ∧ ¬ (place due now).Below l) := by
  obtain ⟨level, starts, inside, rfl⟩ := cascade_some h
  have left : ∀ l' ≤ l, now / block l' < due / block l' := fun l' le =>
    div_lt_of_starts (mod_block_of_le le level starts) after
  have ahead : ¬ (place due now).Below l := by
    rw [below_iff level]
    exact (Nat.ne_of_lt (left l (Nat.le_refl l))).symm
  have same : place due now = .t l ((now + 1) / block l % 64) ↔
      due / block l = (now + 1) / block l := by
    have passed := left l (Nat.le_refl l)
    rw [place_eq_iff level]
    interval_cases l <;> simp only [block] at starts inside passed ⊢ <;> omega
  refine ⟨fun moved => (below_iff level).mpr (same.mp moved), fun stays => ⟨?_, ahead⟩⟩
  have apart : due / block l ≠ (now + 1) / block l := fun eq => stays (same.mpr eq)
  refine place_congr fun l' hl' => ?_
  rcases Nat.lt_or_ge l l' with higher | le
  · have inside' : (now + 1) % block l' ≠ 0 := fun starts' =>
      inside (by omega) (mod_block_of_le higher hl' starts')
    rw [div_succ_of_inside inside']
  · have ne : due / block l' ≠ (now + 1) / block l' := fun eq => apart (div_block_of_le le level eq)
    exact iff_of_false ne (Nat.ne_of_lt (left l' le)).symm

theorem and_mask_eq_zero_iff {t : UInt32} (mask : UInt32) (k : Nat) (hmask : mask.toNat = 2 ^ k - 1) :
    t &&& mask = 0 ↔ t.toNat % 2 ^ k = 0 := by
  rw [← UInt32.toNat_inj, UInt32.toNat_and, hmask, Nat.and_two_pow_sub_one_eq_mod]
  rfl

namespace Wheel

/-- The wheel with the clock at tick `now`. -/
def setTime (T : Wheel) (now : Nat) : Wheel := { T with time := UInt32.ofNat now }

/-- `timer_shift` makes the cascade of the new tick. -/
theorem shift_eq {T : Wheel} {now : Nat} (time : T.time = UInt32.ofNat now) :
    T.shift = match cascade (now + 1) with
      | none => T.setTime (now + 1)
      | some (l, i) => (T.setTime (now + 1)).moveList l i := by
  have next : T.time + 1 = UInt32.ofNat (now + 1) := by
    rw [time, UInt32.ofNat_add]
    rfl
  have value : (UInt32.ofNat (now + 1)).toNat = (now + 1) % 4294967296 := UInt32.toNat_ofNat'
  have zero : UInt32.ofNat (now + 1) = 0 ↔ (now + 1) % 4294967296 = 0 := by
    rw [← UInt32.toNat_inj, value]
    rfl
  have mask0 : timeNearMask + 1 = 256 := by decide
  have mask1 : (256 : UInt32) <<< timeLevelShift.toUInt32 = 16384 := by decide
  have mask2 : (16384 : UInt32) <<< timeLevelShift.toUInt32 = 1048576 := by decide
  have mask3 : (1048576 : UInt32) <<< timeLevelShift.toUInt32 = 67108864 := by decide
  simp only [shift, shiftLevel, next, zero, mask0, mask1, mask2, mask3, level_index,
    and_mask_eq_zero_iff (256 - 1) 8 (by decide),
    and_mask_eq_zero_iff (16384 - 1) 14 (by decide),
    and_mask_eq_zero_iff (1048576 - 1) 20 (by decide),
    and_mask_eq_zero_iff (67108864 - 1) 26 (by decide),
    toNat_shiftRight timeNearShift (by decide),
    toNat_shiftRight timeLevelShift (by decide), value]
  generalize hm : now + 1 = m
  have index0 : m % 4294967296 / 2 ^ timeNearShift % 64 = m / 256 % 64 := by
    simp only [timeNearShift]
    omega
  have index1 : m % 4294967296 / 2 ^ timeNearShift / 2 ^ timeLevelShift % 64 =
      m / 16384 % 64 := by
    simp only [timeNearShift, timeLevelShift]
    omega
  have index2 : m % 4294967296 / 2 ^ timeNearShift / 2 ^ timeLevelShift / 2 ^ timeLevelShift % 64 =
      m / 1048576 % 64 := by
    simp only [timeNearShift, timeLevelShift]
    omega
  have index3 : m % 4294967296 / 2 ^ timeNearShift / 2 ^ timeLevelShift / 2 ^ timeLevelShift /
      2 ^ timeLevelShift % 64 = m / 67108864 % 64 := by
    simp only [timeNearShift, timeLevelShift]
    omega
  simp only [index0, index1, index2, index3]
  unfold cascade
  by_cases start : m % 4294967296 = 0
  · rw [if_pos start, if_neg (by omega), if_neg (by omega), if_neg (by omega), if_neg (by omega),
      show m / 67108864 % 64 = 0 by omega]
    rfl
  · rw [if_neg start]
    by_cases near : m % 256 = 0
    · rw [if_pos (by omega), if_neg (not_not.mpr near)]
      by_cases level0 : m / 256 % 64 = 0
      · rw [if_neg (not_not.mpr level0), if_pos (by omega), if_neg (not_not.mpr level0)]
        by_cases level1 : m / 16384 % 64 = 0
        · rw [if_neg (not_not.mpr level1), if_pos (by omega), if_neg (not_not.mpr level1)]
          by_cases level2 : m / 1048576 % 64 = 0
          · rw [if_neg (not_not.mpr level2), if_pos (by omega), if_neg (not_not.mpr level2),
              if_pos (by omega)]
            rfl
          · rw [if_pos level2, if_pos level2]
            rfl
        · rw [if_pos level1, if_pos level1]
          rfl
      · rw [if_pos level0, if_pos level0]
        rfl
    · rw [if_neg (by omega), if_pos near]
      rfl

end Wheel

end Starnet.Timer
