import Mathlib.Data.Finset.Card
import Starnet.Lib.Chain
import Starnet.Sharedata.Table

/-! The two passes that fill the hash part. The first puts in every main slot the first entry for
it. The second puts each other entry in the next empty slot and links it to its main slot; there is
a slot for every entry, so no slot stays empty. -/

namespace Starnet.Sharedata

open Chain SharedTable

variable {V : Type} {hash : List (Node V)} {size : Nat} {kv : Key × Option V}

/-! ### Slots -/

theorem nodeAt_eq_getElem {i : Nat} (lt : i < hash.length) : nodeAt hash i = hash[i] := by
  rw [nodeAt, List.getD_eq_getElem?_getD, List.getElem?_eq_getElem lt, Option.getD_some]

theorem nodeAt_set (hash : List (Node V)) (i j : Nat) (n : Node V) :
    nodeAt (hash.set i n) j = if i = j ∧ j < hash.length then n else nodeAt hash j := by
  simp only [nodeAt, List.getD_eq_getElem?_getD, List.getElem?_set]
  by_cases same : i = j
  · subst same
    by_cases lt : i < hash.length
    · simp [lt]
    · simp [lt]
  · simp [same]

theorem nodeAt_replicate (size i : Nat) : nodeAt (List.replicate size ({} : Node V)) i = {} := by
  rw [nodeAt, List.getD_eq_getElem?_getD, List.getElem?_replicate]
  split <;> rfl

/-- What a slot holds. -/
def Node.entry (n : Node V) : Key × Option V := (n.key, n.value)

theorem mem_entries : kv ∈ hash.map Node.entry ↔ ∃ i < hash.length, (nodeAt hash i).entry = kv := by
  rw [List.mem_map]
  constructor
  · rintro ⟨n, mem, eq⟩
    obtain ⟨i, lt, get⟩ := List.mem_iff_getElem.mp mem
    refine ⟨i, lt, ?_⟩
    rw [nodeAt_eq_getElem lt, get, eq]
  · rintro ⟨i, lt, eq⟩
    rw [nodeAt_eq_getElem lt] at eq
    exact ⟨_, List.getElem_mem lt, eq⟩

/-- The slots below `size` that hold an entry. -/
def occupied (hash : List (Node V)) (size : Nat) : Finset Nat :=
  (Finset.range size).filter fun i => (nodeAt hash i).value.isSome

theorem mem_occupied {i : Nat} :
    i ∈ occupied hash size ↔ i < size ∧ (nodeAt hash i).value.isSome = true := by
  simp [occupied]

/-- One more slot is occupied. -/
theorem card_occupied {hash' : List (Node V)} {n : Nat} (lt : n < size)
    (empty : (nodeAt hash n).value = none) (filled : (nodeAt hash' n).value.isSome = true)
    (same : ∀ i, i ≠ n → (nodeAt hash' i).value = (nodeAt hash i).value) :
    (occupied hash' size).card = (occupied hash size).card + 1 := by
  have fresh : n ∉ occupied hash size := by
    rw [mem_occupied, empty]
    simp
  have insert : occupied hash' size = insert n (occupied hash size) := by
    ext i
    rw [Finset.mem_insert, mem_occupied, mem_occupied]
    by_cases eq : i = n
    · subst eq
      simp [lt, filled]
    · simp [eq, same i eq]
  rw [insert, Finset.card_insert_of_notMem fresh]

theorem mainSlot_lt (positive : 0 < size) (key : Key) : mainSlot size key < size :=
  Nat.mod_lt _ positive

/-! ### The first pass -/

/-- Node `i` holds `kv` in its main slot. -/
def HoldsMain (hash : List (Node V)) (i : Nat) (kv : Key × Option V) : Prop :=
  nodeAt hash i = { key := kv.1, value := kv.2, next := -1, nocolliding := true }

/-- The entry is the one in its main slot. -/
def isMain (hash : List (Node V)) (size : Nat) (kv : Key × Option V) : Bool :=
  (nodeAt hash (mainSlot size kv.1)).key = kv.1

/-- What the first pass has done with the entries of `done`. -/
structure Mains (size : Nat) (done : List (Key × Option V)) (hash : List (Node V)) : Prop where
  length : hash.length = size
  node : ∀ i, nodeAt hash i = {} ∨ ∃ kv ∈ done, mainSlot size kv.1 = i ∧ HoldsMain hash i kv
  filled : ∀ kv ∈ done, (nodeAt hash (mainSlot size kv.1)).value.isSome = true
  count : (occupied hash size).card = done.countP (isMain hash size)

namespace Mains

theorem empty (size : Nat) : Mains size [] (List.replicate size ({} : Node V)) where
  length := List.length_replicate
  node i := Or.inl (nodeAt_replicate size i)
  filled := nofun
  count := by
    rw [List.countP_nil, Finset.card_eq_zero]
    ext i
    simp [mem_occupied, nodeAt_replicate]

variable {done : List (Key × Option V)}

/-- An entry whose main slot is occupied stays for the second pass. -/
theorem skip (m : Mains size done hash) (fresh : kv.1 ∉ done.map Prod.fst)
    (taken : (nodeAt hash (mainSlot size kv.1)).value.isSome = true) :
    Mains size (done ++ [kv]) hash := by
  have other : isMain hash size kv = false := by
    rcases m.node (mainSlot size kv.1) with free | ⟨kv', mem, -, holds⟩
    · rw [free] at taken
      cases taken
    · rw [isMain, holds, decide_eq_false_iff_not]
      intro eq
      exact fresh (eq ▸ List.mem_map_of_mem mem)
  refine ⟨m.length, fun i => ?_, fun kv' mem => ?_, ?_⟩
  · rcases m.node i with free | ⟨kv', mem, main, holds⟩
    · exact Or.inl free
    · exact Or.inr ⟨kv', List.mem_append_left _ mem, main, holds⟩
  · rcases List.mem_append.mp mem with mem | mem
    · exact m.filled kv' mem
    · rwa [List.mem_singleton.mp mem]
  · rw [m.count, List.countP_append, List.countP_singleton, other]
    rfl

/-- The first entry for a main slot is put there. -/
theorem fill (m : Mains size done hash) (positive : 0 < size) (present : kv.2.isSome = true)
    (free : (nodeAt hash (mainSlot size kv.1)).value = none) :
    Mains size (done ++ [kv]) (hash.set (mainSlot size kv.1)
      { key := kv.1, value := kv.2, next := -1, nocolliding := true }) := by
  have lt : mainSlot size kv.1 < hash.length := m.length ▸ mainSlot_lt positive kv.1
  have here : ∀ i, i = mainSlot size kv.1 → HoldsMain (hash.set (mainSlot size kv.1)
      { key := kv.1, value := kv.2, next := -1, nocolliding := true }) i kv := by
    rintro i rfl
    rw [HoldsMain, nodeAt_set, if_pos ⟨rfl, lt⟩]
  have away : ∀ i, i ≠ mainSlot size kv.1 → nodeAt (hash.set (mainSlot size kv.1)
      { key := kv.1, value := kv.2, next := -1, nocolliding := true }) i = nodeAt hash i := by
    intro i ne
    rw [nodeAt_set, if_neg fun both => ne both.1.symm]
  have apart : ∀ kv' ∈ done, mainSlot size kv'.1 ≠ mainSlot size kv.1 := by
    intro kv' mem eq
    have filled := m.filled kv' mem
    rw [eq, free] at filled
    cases filled
  refine ⟨by rw [List.length_set, m.length], fun i => ?_, fun kv' mem => ?_, ?_⟩
  · by_cases eq : i = mainSlot size kv.1
    · exact Or.inr ⟨kv, List.mem_append_right _ (List.mem_singleton.mpr rfl), eq.symm, here i eq⟩
    · rcases m.node i with empty | ⟨kv', mem, main, holds⟩
      · exact Or.inl ((away i eq).trans empty)
      · exact Or.inr ⟨kv', List.mem_append_left _ mem, main, (away i eq).trans holds⟩
  · rcases List.mem_append.mp mem with mem | mem
    · rw [away _ (apart kv' mem)]
      exact m.filled kv' mem
    · rw [List.mem_singleton.mp mem, here _ rfl]
      exact present
  · rw [card_occupied (m.length ▸ lt) free (by rw [here _ rfl]; exact present)
      fun i ne => by rw [away i ne], m.count, List.countP_append, List.countP_singleton]
    have self : isMain (hash.set (mainSlot size kv.1)
        { key := kv.1, value := kv.2, next := -1, nocolliding := true }) size kv = true := by
      rw [isMain, here _ rfl]
      exact decide_eq_true rfl
    rw [if_pos self]
    congr 1
    refine List.countP_congr fun kv' mem => ?_
    rw [isMain, isMain, away _ (apart kv' mem)]

theorem run (positive : 0 < size) {items : List (Key × Option V)} :
    ∀ {done : List (Key × Option V)} {hash : List (Node V)}, Mains size done hash →
      ((done ++ items).map Prod.fst).Nodup → (∀ kv ∈ items, kv.2.isSome = true) →
      Mains size (done ++ items) (fillNoColliding items size hash) := by
  induction items with
  | nil =>
    intro done hash m _ _
    rw [List.append_nil]
    exact m
  | cons kv items ih =>
    intro done hash m distinct present
    have here := present kv List.mem_cons_self
    rw [List.append_cons] at distinct
    rw [List.append_cons]
    refine ih ?_ distinct fun kv mem => present kv (List.mem_cons_of_mem _ mem)
    rw [fillMain]
    cases value : (nodeAt hash (mainSlot size kv.1)).value with
    | none => exact m.fill positive here value
    | some v =>
      refine m.skip ?_ (by rw [value]; rfl)
      rw [List.map_append, List.nodup_append, List.map_append, List.nodup_append] at distinct
      intro mem
      exact distinct.1.2.2 _ mem _ (List.mem_singleton.mpr rfl) rfl

theorem holds {items : List (Key × Option V)} (m : Mains size items hash)
    (distinct : (items.map Prod.fst).Nodup) (mem : kv ∈ items) (main : isMain hash size kv = true) :
    HoldsMain hash (mainSlot size kv.1) kv := by
  have filled := m.filled kv mem
  rw [isMain, decide_eq_true_iff] at main
  rcases m.node (mainSlot size kv.1) with free | ⟨kv', mem', -, holds⟩
  · rw [free] at filled
    cases filled
  · rw [holds] at main
    rwa [List.inj_on_of_nodup_map distinct mem' mem main] at holds

end Mains

/-! ### The second pass -/

theorem nodeAt_linkAfter (kv : Key × Option V) {m n : Nat} (apart : m ≠ n) (ltm : m < hash.length) (ltn : n < hash.length)
    (i : Nat) :
    nodeAt (linkAfter hash m n kv) i =
      if i = n then
        { key := kv.1, value := kv.2, next := (nodeAt hash m).next, nocolliding := false }
      else if i = m then { nodeAt hash m with next := Int32.ofNat n, nocolliding := false }
      else nodeAt hash i := by
  simp only [linkAfter, nodeAt_set, List.length_set]
  by_cases inner : i = n
  · subst inner
    simp [ltn, apart]
  · by_cases main : i = m
    · subst main
      simp [ltm, inner, Ne.symm inner]
    · simp [inner, main, Ne.symm inner, Ne.symm main]

theorem length_linkAfter (hash : List (Node V)) (m n : Nat) (kv : Key × Option V) :
    (linkAfter hash m n kv).length = hash.length := by
  simp only [linkAfter, List.length_set]

/-- What the second pass has done with the entries of `done`, after the first left `mains`. -/
structure Placed (items : List (Key × Option V)) (mains : List (Node V))
    (done : List (Key × Option V)) (start : Nat) (hash : List (Node V)) : Prop where
  length : hash.length = items.length
  kept : ∀ i, (nodeAt mains i).value.isSome = true →
    (nodeAt hash i).key = (nodeAt mains i).key ∧ (nodeAt hash i).value = (nodeAt mains i).value
  low : ∀ i, i < start → i < items.length → (nodeAt hash i).value.isSome = true
  count : (occupied hash items.length).card =
    (occupied mains items.length).card + done.countP fun kv => !isMain mains items.length kv
  placed : ∀ kv ∈ done, ∃ i < items.length, (nodeAt hash i).key = kv.1 ∧ (nodeAt hash i).value = kv.2

variable {items done rest : List (Key × Option V)} {mains : List (Node V)} {start n : Nat}

theorem emptySlot_eq_some (found : emptySlot hash start size = some n) :
    start ≤ n ∧ n < size ∧ (nodeAt hash n).value = none ∧
      ∀ i, start ≤ i → i < n → (nodeAt hash i).value.isSome = true := by
  rw [emptySlot, List.find?_range'_eq_some, List.mem_range'_1] at found
  obtain ⟨empty, mem, full⟩ := found
  refine ⟨mem.1, by omega, by simpa using empty, fun i ge lt => ?_⟩
  have here := full i ge lt
  rwa [Option.not_isNone] at here

theorem countP_lt {p : Key × Option V → Bool} (split : items = done ++ kv :: rest)
    (here : p kv = true) : done.countP p < items.countP p := by
  rw [split, List.countP_append, List.countP_cons_of_pos here]
  omega

namespace Placed

theorem init (m : Mains items.length items mains) : Placed items mains [] 0 mains where
  length := m.length
  kept _ _ := ⟨rfl, rfl⟩
  low := nofun
  count := by simp
  placed := nofun

/-- The search for the key in its main slot does not depend on the links made. -/
theorem inserted_iff (p : Placed items mains done start hash) (m : Mains items.length items mains)
    (mem : kv ∈ items) :
    (nodeAt hash (mainSlot items.length kv.1)).key = kv.1 ↔
      isMain mains items.length kv = true := by
  rw [isMain, decide_eq_true_iff, (p.kept _ (m.filled kv mem)).1]

/-- Not every slot is occupied while an entry is left. -/
theorem room (p : Placed items mains done start hash) (m : Mains items.length items mains)
    (split : items = done ++ kv :: rest) (displaced : isMain mains items.length kv = false) :
    ∃ n, emptySlot hash start items.length = some n := by
  by_contra full
  rw [not_exists] at full
  have full := Option.eq_none_iff_forall_ne_some.mpr full
  rw [emptySlot, List.find?_range'_eq_none] at full
  have all : occupied hash items.length = Finset.range items.length := by
    ext i
    rw [mem_occupied, Finset.mem_range, and_iff_left_iff_imp]
    intro lt
    by_cases low : i < start
    · exact p.low i low lt
    · have here := full i (by omega) (by omega)
      rwa [Option.not_isNone] at here
  have count := p.count
  have parts := List.length_eq_countP_add_countP (isMain mains items.length) (l := items)
  have left := countP_lt (p := fun kv => !isMain mains items.length kv) split (by rw [displaced]; rfl)
  rw [all, Finset.card_range, m.count] at count
  simp only [Bool.not_eq_true, Bool.decide_eq_false] at parts
  omega

/-- The entry that is in its main slot stays there. -/
theorem keep (p : Placed items mains done start hash) (m : Mains items.length items mains)
    (distinct : (items.map Prod.fst).Nodup) (mem : kv ∈ items)
    (main : isMain mains items.length kv = true) :
    Placed items mains (done ++ [kv]) start hash := by
  refine ⟨p.length, p.kept, p.low, ?_, fun kv' mem' => ?_⟩
  · rw [p.count, List.countP_append, List.countP_singleton, main]
    rfl
  · rcases List.mem_append.mp mem' with mem' | mem'
    · exact p.placed kv' mem'
    · rw [List.mem_singleton.mp mem']
      have kept := p.kept _ (m.filled kv mem)
      rw [m.holds distinct mem main] at kept
      exact ⟨_, mainSlot_lt (List.length_pos_of_mem mem) kv.1, kept⟩

/-- The main slot of an entry is not an empty one. -/
theorem main_ne (p : Placed items mains done start hash) (m : Mains items.length items mains)
    (mem : kv ∈ items) (empty : (nodeAt hash n).value = none) :
    mainSlot items.length kv.1 ≠ n := by
  intro eq
  have filled := m.filled kv mem
  rw [← (p.kept _ filled).2, eq, empty] at filled
  cases filled

/-- A displaced entry is put in the first empty slot. -/
theorem put (p : Placed items mains done start hash) (m : Mains items.length items mains)
    (mem : kv ∈ items) (present : ∀ kv' ∈ done ++ [kv], kv'.2.isSome = true)
    (displaced : isMain mains items.length kv = false)
    (found : emptySlot hash start items.length = some n) :
    Placed items mains (done ++ [kv]) (n + 1)
      (linkAfter hash (mainSlot items.length kv.1) n kv) := by
  obtain ⟨-, lt, empty, full⟩ := emptySlot_eq_some found
  have at_slot := nodeAt_linkAfter kv (p.main_ne m mem empty)
    (p.length ▸ mainSlot_lt (List.length_pos_of_mem mem) kv.1) (p.length ▸ lt)
  have length := length_linkAfter hash (mainSlot items.length kv.1) n kv
  generalize linkAfter hash (mainSlot items.length kv.1) n kv = hash' at at_slot length
  have last := present kv (List.mem_append_right _ (List.mem_singleton.mpr rfl))
  have here : (nodeAt hash' n).key = kv.1 ∧ (nodeAt hash' n).value = kv.2 := by
    rw [at_slot, if_pos rfl]
    exact ⟨rfl, rfl⟩
  have away : ∀ i, i ≠ n → (nodeAt hash' i).key = (nodeAt hash i).key ∧
      (nodeAt hash' i).value = (nodeAt hash i).value := by
    intro i ne
    rw [at_slot, if_neg ne]
    split
    · rename_i eq
      rw [eq]
      exact ⟨rfl, rfl⟩
    · exact ⟨rfl, rfl⟩
  have outside : ∀ i, (nodeAt hash i).value.isSome = true → i ≠ n := by
    rintro i filled rfl
    rw [empty] at filled
    cases filled
  refine ⟨length.trans p.length, fun i filled => ?_, fun i lt_start lt' => ?_, ?_, fun kv' mem' => ?_⟩
  · have kept := p.kept i filled
    have ne := outside i (by rw [kept.2]; exact filled)
    rw [(away i ne).1, (away i ne).2]
    exact kept
  · by_cases eq : i = n
    · rw [eq, here.2]
      exact last
    · rw [(away i eq).2]
      by_cases low : i < start
      · exact p.low i low lt'
      · exact full i (by omega) (by omega)
  · rw [card_occupied lt empty (by rw [here.2]; exact last) fun i ne => (away i ne).2, p.count,
      List.countP_append, List.countP_singleton, displaced]
    rfl
  · have some' := present kv' mem'
    rcases List.mem_append.mp mem' with mem' | mem'
    · obtain ⟨i, lt', key, value⟩ := p.placed kv' mem'
      have ne := outside i (by rw [value]; exact some')
      exact ⟨i, lt', (away i ne).1.trans key, (away i ne).2.trans value⟩
    · rw [List.mem_singleton.mp mem']
      exact ⟨n, lt, here⟩

/-- The second pass keeps what holds at its start and is kept by each of its rounds. -/
theorem run (m : Mains items.length items mains) (distinct : (items.map Prod.fst).Nodup)
    (present : ∀ kv ∈ items, kv.2.isSome = true) {P : List (Key × Option V) → List (Node V) → Prop}
    (keep : ∀ {done kv rest start hash}, items = done ++ kv :: rest →
      Placed items mains done start hash → isMain mains items.length kv = true →
      P done hash → P (done ++ [kv]) hash)
    (put : ∀ {done kv rest start hash n}, items = done ++ kv :: rest →
      Placed items mains done start hash → isMain mains items.length kv = false →
      emptySlot hash start items.length = some n → P done hash →
      P (done ++ [kv]) (linkAfter hash (mainSlot items.length kv.1) n kv))
    (split : items = done ++ rest) (p : Placed items mains done start hash) (holds : P done hash) :
    ∃ start', Placed items mains items start'
      (rest.foldl (fillDisplaced items.length) (start, hash)).2 ∧
      P items (rest.foldl (fillDisplaced items.length) (start, hash)).2 := by
  induction rest generalizing done start hash with
  | nil =>
    rw [List.append_nil] at split
    subst split
    exact ⟨start, p, holds⟩
  | cons kv rest ih =>
    have mem : kv ∈ items := by
      rw [split]
      simp
    have next : items = (done ++ [kv]) ++ rest := by rw [split, List.append_cons]
    rw [List.foldl_cons]
    cases main : isMain mains items.length kv with
    | true =>
      have step : fillDisplaced items.length (start, hash) kv = (start, hash) :=
        if_pos ((p.inserted_iff m mem).mpr main)
      rw [step]
      exact ih next (p.keep m distinct mem main) (keep split p main holds)
    | false =>
      obtain ⟨n, found⟩ := p.room m split main
      have step : fillDisplaced items.length (start, hash) kv =
          (n + 1, linkAfter hash (mainSlot items.length kv.1) n kv) := by
        have displaced := mt (p.inserted_iff m mem).mp (by simp [main])
        rw [fillDisplaced, if_neg displaced, found]
      rw [step]
      refine ih next (p.put m mem (fun kv' mem' => present kv' ?_) main found)
        (put split p main found holds)
      rw [next]
      exact List.mem_append_left _ mem'

end Placed

/-! ### Chains -/

/-- The slot that slot `i` links to. -/
def linkOf (hash : List (Node V)) (i : Nat) : Option Nat :=
  if (nodeAt hash i).next < 0 then none else some (nodeAt hash i).next.toNatClampNeg

/-- Every slot that a link cannot name is the main slot of some entry: links are `int`. -/
def LinksFit (items : List (Key × Option V)) : Prop :=
  ∀ i, 2 ^ 31 ≤ i → i < items.length → ∃ kv ∈ items, mainSlot items.length kv.1 = i

/-- The chain of main slot `m` visits the slots of `l`, which hold the displaced entries of `m`. -/
structure Linked (items : List (Key × Option V)) (mains : List (Node V))
    (done : List (Key × Option V)) (hash : List (Node V)) (m : Nat) (l : List Nat) : Prop where
  path : Path (linkOf hash) (linkOf hash m) l
  nodup : l.Nodup
  slot : ∀ i ∈ l, i < items.length ∧ (nodeAt mains i).value = none ∧
    (nodeAt hash i).value.isSome = true
  all : ∀ kv ∈ done, mainSlot items.length kv.1 = m → isMain mains items.length kv = false →
    ∃ i ∈ l, (nodeAt hash i).key = kv.1
  alone : (nodeAt hash m).nocolliding = true → l = []

variable {m : Nat} {l : List Nat}

theorem Linked.init (first : Mains items.length items mains) : Linked items mains [] mains m [] where
  path := by
    have unlinked : (nodeAt mains m).next = -1 := by
      rcases first.node m with free | ⟨kv, -, -, holds⟩
      · rw [free]
      · rw [holds]
    have none : linkOf mains m = none := by
      rw [linkOf, unlinked]
      rfl
    rw [none]
    exact .nil
  nodup := List.nodup_nil
  slot := nofun
  all := nofun
  alone _ := rfl

theorem Linked.keep (chain : Linked items mains done hash m l)
    (main : isMain mains items.length kv = true) : Linked items mains (done ++ [kv]) hash m l := by
  refine ⟨chain.path, chain.nodup, chain.slot, fun kv' mem eq displaced => ?_, chain.alone⟩
  rcases List.mem_append.mp mem with mem | mem
  · exact chain.all kv' mem eq displaced
  · rw [List.mem_singleton.mp mem, main] at displaced
    cases displaced

/-- A link that fits in an `int` is the slot. -/
theorem link_ofNat {n : Nat} (fits : n < 2 ^ 31) :
    ¬ Int32.ofNat n < 0 ∧ (Int32.ofNat n).toNatClampNeg = n := by
  refine ⟨?_, Int32.toNatClampNeg_ofNat_of_lt fits⟩
  rw [Int32.lt_iff_toInt_lt, Int32.toInt_ofNat_of_lt fits, Int32.toInt_zero]
  omega

theorem link_lt {i j : Nat} (link : linkOf hash i = some j) : j < 2 ^ 31 := by
  rw [linkOf] at link
  split at link
  · cases link
  · cases link
    exact Int32.toNatClampNeg_lt _

/-- An empty slot was empty after the first pass. -/
theorem Placed.unmained (p : Placed items mains done start hash)
    (empty : (nodeAt hash n).value = none) : (nodeAt mains n).value = none := by
  cases value : (nodeAt mains n).value with
  | none => rfl
  | some v =>
    have kept := (p.kept n (by rw [value]; rfl)).2
    rw [empty, value] at kept
    cases kept

/-- A slot that the first pass left empty fits in a link. -/
theorem Mains.small (first : Mains items.length items mains) (fits : LinksFit items)
    (lt : n < items.length) (unmained : (nodeAt mains n).value = none) : n < 2 ^ 31 := by
  by_contra large
  obtain ⟨kv', mem', eq⟩ := fits n (by omega) lt
  have filled := first.filled kv' mem'
  rw [eq, unmained] at filled
  cases filled

/-- An entry goes into slot `n` and is linked after its main slot `m`. -/
theorem Linked.insert {hash' : List (Node V)} (chain : Linked items mains done hash m l)
    (fresh : n ∉ l) (lt : n < items.length)
    (small : n < 2 ^ 31) (unmained : (nodeAt mains n).value = none)
    (present : kv.2.isSome = true) (same : ∀ i ∈ l, nodeAt hash' i = nodeAt hash i)
    (at_main : nodeAt hash' m =
      { nodeAt hash m with next := Int32.ofNat n, nocolliding := false })
    (at_slot : nodeAt hash' n =
      { key := kv.1, value := kv.2, next := (nodeAt hash m).next, nocolliding := false }) :
    Linked items mains (done ++ [kv]) hash' m (n :: l) := by
  have links : ∀ i ∈ l, linkOf hash' i = linkOf hash i := by
    intro i mem
    rw [linkOf, linkOf, same i mem]
  refine ⟨?_, List.nodup_cons.mpr ⟨fresh, chain.nodup⟩, fun i mem => ?_,
    fun kv' mem eq displaced => ?_, ?_⟩
  · refine chain.path.insert ?_ ?_ links
    · rw [linkOf, at_main]
      rw [if_neg (link_ofNat small).1, (link_ofNat small).2]
    · rw [linkOf, linkOf, at_slot]
  · rcases List.mem_cons.mp mem with rfl | mem
    · refine ⟨lt, unmained, ?_⟩
      rw [at_slot]
      exact present
    · rw [same i mem]
      exact chain.slot i mem
  · rcases List.mem_append.mp mem with mem | mem
    · obtain ⟨i, mem', key⟩ := chain.all kv' mem eq displaced
      exact ⟨i, List.mem_cons_of_mem _ mem', (congrArg Node.key (same i mem')).trans key⟩
    · refine ⟨n, List.mem_cons_self, ?_⟩
      rw [List.mem_singleton.mp mem, at_slot]
  · rw [at_main]
    nofun

/-- An entry with another main slot leaves a chain as it is. -/
theorem Linked.pass {hash' : List (Node V)} (chain : Linked items mains done hash m l)
    (main : mainSlot items.length kv.1 ≠ m) (same : ∀ i ∈ l, nodeAt hash' i = nodeAt hash i)
    (at_main : nodeAt hash' m = nodeAt hash m) :
    Linked items mains (done ++ [kv]) hash' m l := by
  refine ⟨?_, chain.nodup, fun i mem => ?_, fun kv' mem eq displaced => ?_, ?_⟩
  · have link : linkOf hash' m = linkOf hash m := by rw [linkOf, linkOf, at_main]
    rw [link]
    refine chain.path.congr fun i mem => ?_
    rw [linkOf, linkOf, same i mem]
  · rw [same i mem]
    exact chain.slot i mem
  · rcases List.mem_append.mp mem with mem | mem
    · obtain ⟨i, mem', key⟩ := chain.all kv' mem eq displaced
      exact ⟨i, mem', (congrArg Node.key (same i mem')).trans key⟩
    · rw [List.mem_singleton.mp mem] at eq
      exact absurd eq main
  · rw [at_main]
    exact chain.alone

/-- A displaced entry is linked in after its main slot; the other chains stay. -/
theorem Linked.put (chain : Linked items mains done hash m l)
    (p : Placed items mains done start hash) (first : Mains items.length items mains)
    (fits : LinksFit items) (mem : kv ∈ items) (present : kv.2.isSome = true)
    (found : emptySlot hash start items.length = some n)
    (filled : (nodeAt mains m).value.isSome = true) :
    ∃ l, Linked items mains (done ++ [kv]) (linkAfter hash (mainSlot items.length kv.1) n kv) m l := by
  obtain ⟨-, lt, empty, -⟩ := emptySlot_eq_some found
  have at_slot := nodeAt_linkAfter kv (p.main_ne first mem empty)
    (p.length ▸ mainSlot_lt (List.length_pos_of_mem mem) kv.1) (p.length ▸ lt)
  generalize linkAfter hash (mainSlot items.length kv.1) n kv = hash' at at_slot
  have unmained := p.unmained empty
  have ne : m ≠ n := by
    rintro rfl
    rw [unmained] at filled
    cases filled
  have fresh : n ∉ l := fun mem => by
    have filled := (chain.slot n mem).2.2
    rw [empty] at filled
    cases filled
  -- the other slots of the chain are neither the main slot of `kv` nor the one it is put in
  have same : ∀ i ∈ l, nodeAt hash' i = nodeAt hash i := by
    intro i mem'
    have other : i ≠ mainSlot items.length kv.1 := fun eq => by
      have filled := first.filled kv mem
      rw [← eq, (chain.slot i mem').2.1] at filled
      cases filled
    have apart : i ≠ n := fun eq => fresh (eq ▸ mem')
    rw [at_slot, if_neg apart, if_neg other]
  by_cases main : mainSlot items.length kv.1 = m
  · refine ⟨n :: l, chain.insert fresh lt (first.small fits lt unmained) unmained present same ?_ ?_⟩
    · rw [at_slot, if_neg ne, if_pos main.symm, main]
    · rw [at_slot, if_pos rfl, main]
  · refine ⟨l, chain.pass main same ?_⟩
    rw [at_slot, if_neg ne, if_neg (Ne.symm main)]

/-! ### Both passes -/

/-- The hash part that `Finish` builds. -/
def hashPart (items : List (Key × Option V)) : List (Node V) :=
  fillColliding items items.length
    (fillNoColliding items items.length (List.replicate items.length {}))

theorem mains_of_items (distinct : (items.map Prod.fst).Nodup)
    (present : ∀ kv ∈ items, kv.2.isSome = true) (nonempty : 0 < items.length) :
    Mains items.length items (fillNoColliding items items.length (List.replicate items.length {})) :=
  (Mains.empty items.length).run nonempty distinct present

/-- The slots hold the entries. -/
theorem hashPart_perm (distinct : (items.map Prod.fst).Nodup)
    (present : ∀ kv ∈ items, kv.2.isSome = true) :
    (hashPart items).length = items.length ∧
      ((hashPart items).map Node.entry).Perm items := by
  by_cases nonempty : 0 < items.length
  · have first := mains_of_items distinct present nonempty
    obtain ⟨start, p, -⟩ := Placed.run first distinct present (P := fun _ _ => True)
      (fun _ _ _ _ => trivial) (fun _ _ _ _ _ => trivial) (List.nil_append items).symm
      (.init first) trivial
    refine ⟨p.length, (List.Subperm.perm_of_length_le ?_ ?_).symm⟩
    · refine (distinct.of_map).subperm fun kv mem => ?_
      obtain ⟨i, lt, key, value⟩ := p.placed kv mem
      exact mem_entries.mpr ⟨i, p.length ▸ lt, Prod.ext key value⟩
    · rw [List.length_map]
      exact p.length.le
  · rw [Nat.pos_iff_ne_zero, ne_eq, not_not, List.length_eq_zero_iff] at nonempty
    subst nonempty
    exact ⟨rfl, .nil⟩

/-- The search for the key of an entry goes along a chain that visits its slot. -/
structure Threaded (items : List (Key × Option V)) (hash : List (Node V)) (kv : Key × Option V)
    (l : List Nat) : Prop where
  path : Path (linkOf hash) (some (mainSlot items.length kv.1)) l
  nodup : l.Nodup
  slot : ∀ i ∈ l, i < items.length
  found : ∃ i ∈ l, (nodeAt hash i).key = kv.1
  alone : (nodeAt hash (mainSlot items.length kv.1)).nocolliding = true →
    l = [mainSlot items.length kv.1]

theorem hashPart_threaded (distinct : (items.map Prod.fst).Nodup)
    (present : ∀ kv ∈ items, kv.2.isSome = true) (fits : LinksFit items) (mem : kv ∈ items) :
    ∃ l, Threaded items (hashPart items) kv l := by
  have positive := List.length_pos_of_mem mem
  have first := mains_of_items distinct present positive
  obtain ⟨start, p, chains⟩ := Placed.run first distinct present (P := fun done hash =>
      ∀ m, (nodeAt (fillNoColliding items items.length (List.replicate items.length {})) m).value.isSome
        = true → ∃ l, Linked items
          (fillNoColliding items items.length (List.replicate items.length {})) done hash m l)
    (fun _ _ main chains m filled => (chains m filled).imp fun _ chain => chain.keep main)
    (fun split p _ found chains m filled => by
      obtain ⟨l, chain⟩ := chains m filled
      have mem : _ ∈ items := split ▸ List.mem_append_right _ List.mem_cons_self
      exact chain.put p first fits mem (present _ mem) found filled)
    (List.nil_append items).symm (.init first) fun m _ => ⟨[], .init first⟩
  obtain ⟨l, chain⟩ := chains _ (first.filled kv mem)
  refine ⟨mainSlot items.length kv.1 :: l, .cons _ chain.path, List.nodup_cons.mpr ⟨?_, chain.nodup⟩,
    ?_, ?_, fun alone => by rw [chain.alone alone]⟩
  · intro mem'
    have filled := first.filled kv mem
    rw [(chain.slot _ mem').2.1] at filled
    cases filled
  · rintro i (_ | ⟨_, mem'⟩)
    · exact mainSlot_lt positive kv.1
    · exact (chain.slot i mem').1
  · cases main : isMain (fillNoColliding items items.length (List.replicate items.length {}))
        items.length kv with
    | true => exact ⟨_, List.mem_cons_self, (p.inserted_iff first mem).mpr main⟩
    | false =>
      obtain ⟨i, mem', key⟩ := chain.all kv mem rfl main
      exact ⟨i, List.mem_cons_of_mem _ mem', key⟩

end Starnet.Sharedata
