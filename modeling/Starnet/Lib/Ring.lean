import Mathlib.Data.List.Range
import Mathlib.Logic.Function.Basic

/-! Ring buffers. An array of `cap` slots holds a queue from the slot `head` up to the slot `tail`,
around the end of the array when `tail` is before `head`; one slot stays empty. -/

namespace Ring

variable {α : Type*}

/-- The slots `i`, …, `j - 1`. -/
def slice (a : Nat → α) (i j : Nat) : List α := (List.range' i (j - i)).map a

/-- The elements of the queue, the front first. -/
def content (a : Nat → α) (cap head tail : Nat) : List α :=
  if head ≤ tail then slice a head tail else slice a head cap ++ slice a 0 tail

/-- The slot after slot `i`. -/
def next (cap i : Nat) : Nat := if i + 1 < cap then i + 1 else 0

theorem next_lt {cap i : Nat} (h : i < cap) : next cap i < cap := by
  unfold next
  split <;> omega

@[simp] theorem slice_self (a : Nat → α) (i : Nat) : slice a i i = [] := by simp [slice]

@[simp] theorem length_slice (a : Nat → α) (i j : Nat) : (slice a i j).length = j - i := by
  simp [slice]

theorem slice_cons (a : Nat → α) {i j : Nat} (h : i < j) :
    slice a i j = a i :: slice a (i + 1) j := by
  obtain ⟨k, rfl⟩ := Nat.exists_eq_add_of_lt h
  simp only [slice]
  rw [show i + k + 1 - i = k + 1 by omega, show i + k + 1 - (i + 1) = k by omega,
    List.range'_succ, List.map_cons]

theorem slice_append (a : Nat → α) {i j k : Nat} (hij : i ≤ j) (hjk : j ≤ k) :
    slice a i k = slice a i j ++ slice a j k := by
  obtain ⟨m, rfl⟩ := Nat.exists_eq_add_of_le hij
  obtain ⟨l, rfl⟩ := Nat.exists_eq_add_of_le hjk
  simp only [slice, ← List.map_append]
  rw [show i + m + l - i = m + l by omega, show i + m - i = m by omega,
    show i + m + l - (i + m) = l by omega, ← List.range'_append_1]

theorem slice_concat (a : Nat → α) {i j : Nat} (h : i ≤ j) :
    slice a i (j + 1) = slice a i j ++ [a j] := by
  rw [slice_append a h (Nat.le_succ j), slice_cons a (Nat.lt_succ_self j), slice_self]

theorem slice_congr {a b : Nat → α} {i j : Nat} (h : ∀ k, i ≤ k → k < j → a k = b k) :
    slice a i j = slice b i j := by
  refine List.map_congr_left fun k hk => ?_
  rw [List.mem_range'_1] at hk
  exact h k hk.1 (by omega)

/-- A slice moved to other slots. -/
theorem slice_move {a b : Nat → α} {i j n : Nat} (h : ∀ k, k < n → a (i + k) = b (j + k)) :
    slice a i (i + n) = slice b j (j + n) := by
  simp only [slice, Nat.add_sub_cancel_left]
  rw [List.range'_eq_map_range, List.range'_eq_map_range, List.map_map, List.map_map]
  exact List.map_congr_left fun k hk => h k (List.mem_range.mp hk)

theorem slice_update (a : Nat → α) {i j k : Nat} (x : α) (h : k < i ∨ j ≤ k) :
    slice (Function.update a k x) i j = slice a i j :=
  slice_congr fun l hi hj => Function.update_of_ne (by omega) ..

/-- The front of the queue. -/
theorem content_pop (a : Nat → α) {cap head tail : Nat} (hhead : head < cap) (htail : tail < cap)
    (h : head ≠ tail) :
    content a cap head tail = a head :: content a cap (next cap head) tail := by
  unfold content next
  by_cases inner : head + 1 < cap
  · rw [if_pos inner]
    by_cases linear : head ≤ tail
    · rw [if_pos linear, if_pos (by omega), slice_cons a (by omega)]
    · rw [if_neg linear, if_neg (by omega), slice_cons a hhead, List.cons_append]
  · obtain rfl : cap = head + 1 := by omega
    rw [if_neg inner, if_neg (by omega), if_pos (Nat.zero_le _), slice_cons a hhead, slice_self]
    rfl

/-- A new element behind the last one, while a slot is left. -/
theorem content_push (a : Nat → α) {cap head tail : Nat} (hhead : head < cap) (htail : tail < cap)
    (h : next cap tail ≠ head) (x : α) :
    content (Function.update a tail x) cap head (next cap tail) =
      content a cap head tail ++ [x] := by
  unfold content
  unfold next at h ⊢
  by_cases inner : tail + 1 < cap
  · rw [if_pos inner] at h ⊢
    by_cases linear : head ≤ tail
    · rw [if_pos linear, if_pos (by omega), slice_concat _ linear, slice_update a x (.inr le_rfl),
        Function.update_self]
    · rw [if_neg linear, if_neg (by omega), slice_concat _ (Nat.zero_le _),
        slice_update a x (.inl (by omega)), slice_update a x (.inr le_rfl), Function.update_self,
        List.append_assoc]
  · rw [if_neg inner] at h ⊢
    obtain rfl : cap = tail + 1 := by omega
    rw [if_neg (by omega), if_pos (by omega), slice_concat _ (by omega),
      slice_update a x (.inr le_rfl), slice_self, Function.update_self, List.append_nil]

theorem content_nil (a : Nat → α) (cap i : Nat) : content a cap i i = [] := by
  simp [content]

theorem length_content_lt (a : Nat → α) {cap head tail : Nat} (hhead : head < cap)
    (htail : tail < cap) : (content a cap head tail).length < cap := by
  unfold content
  split
  · rw [length_slice]
    omega
  · rw [List.length_append, length_slice, length_slice]
    omega

theorem length_content_succ_eq_iff (a : Nat → α) {cap head tail : Nat} (hhead : head < cap)
    (htail : tail < cap) :
    (content a cap head tail).length + 1 = cap ↔ next cap tail = head := by
  unfold content next
  split
  · rw [length_slice]
    split <;> omega
  · rw [List.length_append, length_slice, length_slice]
    split <;> omega

/-- A queue around the end of its array, moved to the front of another one. -/
theorem content_unwrap {a b : Nat → α} {cap head tail : Nat} (sz : Nat) (hhead : head < cap)
    (wrapped : tail < head) (front : ∀ k, k < cap - head → b k = a (head + k))
    (back : ∀ k, k < tail → b (cap - head + k) = a k) :
    content b sz 0 (cap - head + tail) = content a cap head tail := by
  have first := slice_move (a := b) (b := a) (i := 0) (j := head) (n := cap - head) fun k hk => by
    rw [Nat.zero_add]
    exact front k hk
  have second := slice_move (a := b) (b := a) (i := cap - head) (j := 0) (n := tail) fun k hk => by
    rw [Nat.zero_add]
    exact back k hk
  rw [Nat.zero_add, Nat.add_sub_cancel' hhead.le] at first
  rw [Nat.zero_add] at second
  rw [content, content, if_pos (Nat.zero_le _), if_neg (by omega), ← first, ← second,
    slice_append b (Nat.zero_le (cap - head)) (Nat.le_add_right _ _)]

/-- A queue that does not reach the end of its array, moved to the front of another one. -/
theorem content_shift {a b : Nat → α} {cap head tail : Nat} (sz : Nat) (linear : head ≤ tail)
    (moved : ∀ k, k < tail - head → b k = a (head + k)) :
    content b sz 0 (tail - head) = content a cap head tail := by
  have all := slice_move (a := b) (b := a) (i := 0) (j := head) (n := tail - head) fun k hk => by
    rw [Nat.zero_add]
    exact moved k hk
  rw [Nat.zero_add, Nat.add_sub_cancel' linear] at all
  rw [content, content, if_pos (Nat.zero_le _), if_pos linear, ← all]

end Ring
