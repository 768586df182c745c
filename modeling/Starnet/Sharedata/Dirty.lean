import Starnet.Sharedata.Box

/-! The dirty mark of a box. `SharedataStore::Update` makes a new `TableState` object and marks it
dirty; no call marks the object that it takes the place of. -/

namespace Starnet.Sharedata

open Transition

/-- A `TableState` object with its name and its mark. -/
structure StateObject (CName : Type) extends TableState (SharedTable Content) where
  name : CName
  dirty : Bool

/-- A box that a service holds: the number of its state, and the table that it shows. -/
structure HeldBox where
  state : Nat
  table : SharedTable Content

/-- The objects in the order in which they were made, the map from names to their numbers, and the
boxes. A box keeps its object alive, so that no other one gets its address. -/
structure Objects (CName : Type) where
  states : List (StateObject CName)
  map : CName → Option Nat
  boxes : List HeldBox

/-- The calls, with the number of the state that a query returns. -/
inductive ObjectCall (CName : Type)
  | update (name : CName) (table : SharedTable Content)
  | delete (name : CName)
  | query (name : CName) (state : Option Nat)
  | nested (box : HeldBox)

/-- `Update` or `Delete` of the name. -/
def ObjectCall.Changes {CName : Type} (name : CName) : ObjectCall CName → Prop
  | update name' _ | delete name' => name' = name
  | query .. | nested _ => False

variable {CName : Type}

namespace Objects

/-- The store without the marks and the addresses. -/
def store (σ : Objects CName) : Store CName (SharedTable Content) := fun n =>
  (σ.map n).bind fun i => σ.states[i]?.map StateObject.toTableState

/-- `lisdirty`. -/
def isdirty (σ : Objects CName) (b : HeldBox) : Bool :=
  match σ.states[b.state]? with
  | some st => st.dirty
  | none => false

/-- The box as `lindex` sees it. -/
def view (σ : Objects CName) (b : HeldBox) : Option Box :=
  σ.states[b.state]?.map fun st => ⟨st.toTableState, b.table⟩

/-- `lindex` or `lnextkey` on a box gives a nested one with this table. -/
def Nests (σ : Objects CName) (b : HeldBox) (t : SharedTable Content) : Prop :=
  (∃ k box inner, σ.view b = some box ∧ lindex box k = some (.ok (.box inner)) ∧ inner.table = t) ∨
    ∃ arg key, lnextkey b.table arg = some (some (key, some (.table t)))

def query (σ : Objects CName) (name : CName) : Objects CName :=
  match (σ.map name).bind fun i => σ.states[i]?.map fun st => (⟨i, st.table⟩ : HeldBox) with
  | some b => { σ with boxes := σ.boxes ++ [b] }
  | none => σ

variable [DecidableEq CName]

def update (σ : Objects CName) (name : CName) (table : SharedTable Content) : Objects CName :=
  { σ with
    states := σ.states ++ [{ name, table, version := σ.store.nextVersion name, dirty := true }]
    map := Function.update σ.map name (some σ.states.length) }

def delete (σ : Objects CName) (name : CName) : Objects CName :=
  { σ with map := Function.update σ.map name none }

inductive Step : Objects CName → ObjectCall CName → Objects CName → Prop
  | update (σ : Objects CName) (name : CName) (table : SharedTable Content) :
      Step σ (.update name table) (σ.update name table)
  | delete (σ : Objects CName) (name : CName) : Step σ (.delete name) (σ.delete name)
  | query (σ : Objects CName) (name : CName) : Step σ (.query name (σ.map name)) (σ.query name)
  | nested {σ : Objects CName} {b : HeldBox} {t : SharedTable Content} (held : b ∈ σ.boxes)
      (nests : σ.Nests b t) :
      Step σ (.nested ⟨b.state, t⟩) { σ with boxes := σ.boxes ++ [⟨b.state, t⟩] }

/-- The state of the box is not the one that is stored under its name. -/
def Superseded (σ : Objects CName) (b : HeldBox) : Prop :=
  ∃ st, σ.states[b.state]? = some st ∧ σ.map st.name ≠ some b.state

end Objects

/-- All runs, from an empty store. -/
def objects (CName : Type) [DecidableEq CName] : System (Objects CName) (ObjectCall CName) where
  init σ := σ = ⟨[], fun _ => none, []⟩
  step := Objects.Step

/-- A query of the state with this number, and after it an `Update` or `Delete` of its name. -/
def Replaced (calls : List (ObjectCall CName)) (name : CName) (state : Nat) : Prop :=
  ∃ call : ObjectCall CName, call.Changes name ∧
    [ObjectCall.query name (some state), call].Sublist calls

theorem Objects.store_delete [DecidableEq CName] (σ : Objects CName) (name : CName) :
    (σ.delete name).store = σ.store.delete name := by
  funext n
  by_cases same : n = name
  · subst same
    have gone : (σ.delete n).map n = none := Function.update_self ..
    have absent : σ.store.delete n n = none := Function.update_self ..
    rw [Objects.store, gone, absent]
    rfl
  · have kept : (σ.delete name).map n = σ.map n := Function.update_of_ne same ..
    have other : σ.store.delete name n = σ.store n := Function.update_of_ne same ..
    rw [other, Objects.store, Objects.store, kept]
    rfl

/-! ### The calls -/

variable {calls : List (ObjectCall CName)} {name : CName} {state : Nat}

theorem replaced_concat (call : ObjectCall CName) : Replaced (calls ++ [call]) name state ↔
    Replaced calls name state ∨ ObjectCall.query name (some state) ∈ calls ∧ call.Changes name := by
  constructor
  · rintro ⟨call', changes, sub⟩
    obtain ⟨first, last, eq, inside, sub'⟩ := List.sublist_append_iff.mp sub
    rcases List.sublist_singleton.mp sub' with rfl | rfl
    · rw [List.append_nil] at eq
      exact Or.inl ⟨call', changes, eq ▸ inside⟩
    · have pair : [ObjectCall.query name (some state)] ++ [call'] = first ++ [call] := eq
      obtain ⟨rfl, same⟩ := List.append_inj' pair rfl
      cases same
      exact Or.inr ⟨List.singleton_sublist.mp inside, changes⟩
  · rintro (⟨call', changes, sub⟩ | ⟨mem, changes⟩)
    · exact ⟨call', changes, sub.trans (List.sublist_append_left ..)⟩
    · exact ⟨call, changes, (List.singleton_sublist.mpr mem).append (List.Sublist.refl [call])⟩

theorem replaced_unchanged {call : ObjectCall CName} (other : ¬ call.Changes name) :
    Replaced (calls ++ [call]) name state ↔ Replaced calls name state := by
  rw [replaced_concat]
  exact or_iff_left fun changed => other changed.2

/-- Every object is marked, the map has the objects of the names, and a queried state is stored until
its name is updated or deleted. -/
structure Tracked (σ : Objects CName) (calls : List (ObjectCall CName)) : Prop where
  marked : ∀ st ∈ σ.states, st.dirty = true
  named : ∀ n i, σ.map n = some i → ∃ st, σ.states[i]? = some st ∧ st.name = n
  queried : ∀ n i, ObjectCall.query n (some i) ∈ calls →
    (∃ st, σ.states[i]? = some st ∧ st.name = n) ∧ (σ.map n = some i ↔ ¬ Replaced calls n i)
  held : ∀ b ∈ σ.boxes, ∃ n, ObjectCall.query n (some b.state) ∈ calls

namespace Tracked

variable {σ : Objects CName} {calls : List (ObjectCall CName)}

theorem initial : Tracked (⟨[], fun _ => none, []⟩ : Objects CName) [] :=
  ⟨nofun, nofun, nofun, nofun⟩

/-- The number of a state that was queried is that of an object. -/
theorem queried_lt (tracked : Tracked σ calls) {n : CName} {i : Nat}
    (query : ObjectCall.query n (some i) ∈ calls) : i < σ.states.length := by
  obtain ⟨⟨st, found, -⟩, -⟩ := tracked.queried n i query
  exact (List.getElem?_eq_some_iff.mp found).1

theorem mem_of_concat {call : ObjectCall CName} {n : CName} {i : Nat}
    (query : ObjectCall.query n (some i) ∈ calls ++ [call]) :
    ObjectCall.query n (some i) ∈ calls ∨ call = .query n (some i) :=
  (List.mem_append.mp query).imp id fun mem => (List.mem_singleton.mp mem).symm

theorem held_concat (tracked : Tracked σ calls) (call : ObjectCall CName) (b : HeldBox)
    (mem : b ∈ σ.boxes) : ∃ n, ObjectCall.query n (some b.state) ∈ calls ++ [call] := by
  obtain ⟨n, query⟩ := tracked.held b mem
  exact ⟨n, List.mem_append_left _ query⟩

/-- A call that leaves the map as it is keeps what is known of the states that were queried. -/
theorem queried_unchanged (tracked : Tracked σ calls) {call : ObjectCall CName} {n : CName} {i : Nat}
    (other : ¬ call.Changes n) (query : ObjectCall.query n (some i) ∈ calls) :
    (∃ st, σ.states[i]? = some st ∧ st.name = n) ∧
      (σ.map n = some i ↔ ¬ Replaced (calls ++ [call]) n i) := by
  rw [replaced_unchanged other]
  exact tracked.queried n i query

variable [DecidableEq CName]

theorem update (tracked : Tracked σ calls) (name : CName) (table : SharedTable Content) :
    Tracked (σ.update name table) (calls ++ [.update name table]) := by
  have old : ∀ (i : Nat) (n : CName),
      (∃ st : StateObject CName, σ.states[i]? = some st ∧ st.name = n) →
      ∃ st : StateObject CName, (σ.update name table).states[i]? = some st ∧ st.name = n := by
    rintro i n ⟨st, found, eq⟩
    refine ⟨st, ?_, eq⟩
    exact (List.getElem?_append_left (List.getElem?_eq_some_iff.mp found).1).trans found
  refine ⟨?_, ?_, ?_, tracked.held_concat _⟩
  · intro st mem
    rcases List.mem_append.mp mem with mem | mem
    · exact tracked.marked st mem
    · rw [List.mem_singleton.mp mem]
  · intro n i stored
    by_cases same : n = name
    · subst same
      have new : (σ.update n table).map n = some σ.states.length := Function.update_self ..
      obtain rfl : σ.states.length = i := Option.some.inj (new.symm.trans stored)
      exact ⟨_, List.getElem?_concat_length, rfl⟩
    · exact old i n (tracked.named n i ((Function.update_of_ne same ..).symm.trans stored))
  · intro n i query
    have earlier := (mem_of_concat query).resolve_right (by simp)
    have lt := tracked.queried_lt earlier
    refine ⟨old i n (tracked.queried n i earlier).1, ?_⟩
    by_cases same : n = name
    · subst same
      have new : (σ.update n table).map n = some σ.states.length := Function.update_self ..
      rw [new, replaced_concat]
      refine iff_of_false (fun eq => ?_) (not_not_intro (Or.inr ⟨earlier, rfl⟩))
      exact lt.ne' (Option.some.inj eq)
    · have kept : (σ.update name table).map n = σ.map n := Function.update_of_ne same ..
      rw [kept]
      have other : ¬ (ObjectCall.update name table).Changes n := fun changes => same changes.symm
      exact (tracked.queried_unchanged other earlier).2

theorem delete (tracked : Tracked σ calls) (name : CName) :
    Tracked (σ.delete name) (calls ++ [.delete name]) := by
  refine ⟨tracked.marked, ?_, ?_, tracked.held_concat _⟩
  · intro n i stored
    by_cases same : n = name
    · subst same
      cases (Function.update_self ..).symm.trans stored
    · exact tracked.named n i ((Function.update_of_ne same ..).symm.trans stored)
  · intro n i query
    have earlier := (mem_of_concat query).resolve_right (by simp)
    refine ⟨(tracked.queried n i earlier).1, ?_⟩
    by_cases same : n = name
    · subst same
      have gone : (σ.delete n).map n = none := Function.update_self ..
      rw [gone, replaced_concat]
      exact iff_of_false nofun (not_not_intro (Or.inr ⟨earlier, rfl⟩))
    · have kept : (σ.delete name).map n = σ.map n := Function.update_of_ne same ..
      rw [kept]
      have other : ¬ (ObjectCall.delete name).Changes n := fun changes => same changes.symm
      exact (tracked.queried_unchanged other earlier).2

/-- The objects hold what the store holds. -/
theorem store_update (tracked : Tracked σ calls) (name : CName) (table : SharedTable Content) :
    (σ.update name table).store = σ.store.update name table := by
  funext n
  by_cases same : n = name
  · subst same
    have new : (σ.update n table).map n = some σ.states.length := Function.update_self ..
    have last : (σ.update n table).states[σ.states.length]? = some _ := List.getElem?_concat_length
    have stored : σ.store.update n table n = some ⟨σ.store.nextVersion n, table⟩ :=
      Function.update_self ..
    rw [Objects.store, new, Option.bind_some, last, stored]
    rfl
  · have kept : (σ.update name table).map n = σ.map n := Function.update_of_ne same ..
    have other : σ.store.update name table n = σ.store n := Function.update_of_ne same ..
    rw [other, Objects.store, Objects.store, kept]
    cases stored : σ.map n with
    | none => rfl
    | some i =>
      obtain ⟨st, found, -⟩ := tracked.named n i stored
      have lt := (List.getElem?_eq_some_iff.mp found).1
      have same : (σ.update name table).states[i]? = σ.states[i]? := List.getElem?_append_left lt
      rw [Option.bind_some, Option.bind_some, same]

omit [DecidableEq CName] in
/-- A state that is stored has not been replaced since a query. -/
theorem not_replaced (tracked : Tracked σ calls) {n : CName} {i : Nat} (stored : σ.map n = some i) :
    ¬ Replaced calls n i := by
  rintro ⟨call, changes, sub⟩
  have query : ObjectCall.query n (some i) ∈ calls := sub.subset List.mem_cons_self
  exact ((tracked.queried n i query).2.mp stored) ⟨call, changes, sub⟩

omit [DecidableEq CName] in
theorem query_boxes (σ : Objects CName) (name : CName) :
    (σ.query name).states = σ.states ∧ (σ.query name).map = σ.map ∧
      ∀ b ∈ (σ.query name).boxes, b ∈ σ.boxes ∨ σ.map name = some b.state := by
  unfold Objects.query
  split
  · rename_i b found
    obtain ⟨i, stored, found⟩ := Option.bind_eq_some_iff.mp found
    obtain ⟨st, -, rfl⟩ := Option.map_eq_some_iff.mp found
    refine ⟨rfl, rfl, fun b mem => ?_⟩
    refine (List.mem_append.mp mem).imp id fun mem => ?_
    rw [List.mem_singleton.mp mem]
    exact stored
  · exact ⟨rfl, rfl, fun b => Or.inl⟩

omit [DecidableEq CName] in
theorem query (tracked : Tracked σ calls) (name : CName) :
    Tracked (σ.query name) (calls ++ [.query name (σ.map name)]) := by
  obtain ⟨states, map, boxes⟩ := query_boxes σ name
  constructor
  · rw [states]
    exact tracked.marked
  · rw [states, map]
    exact tracked.named
  · rw [states, map]
    intro n i query
    rcases mem_of_concat query with query | new
    · exact tracked.queried_unchanged id query
    · obtain ⟨rfl, stored⟩ := ObjectCall.query.inj new
      refine ⟨tracked.named _ i stored, iff_of_true stored ?_⟩
      rw [replaced_unchanged id]
      exact tracked.not_replaced stored
  · intro b mem
    rcases boxes b mem with mem | stored
    · exact tracked.held_concat _ b mem
    · exact ⟨name, List.mem_append_right _ (List.mem_singleton.mpr (by rw [stored]))⟩

omit [DecidableEq CName] in
theorem nested (tracked : Tracked σ calls) {b : HeldBox} (held : b ∈ σ.boxes)
    (t : SharedTable Content) :
    Tracked { σ with boxes := σ.boxes ++ [⟨b.state, t⟩] } (calls ++ [.nested ⟨b.state, t⟩]) := by
  refine ⟨tracked.marked, tracked.named, fun n i query => ?_, fun b' mem => ?_⟩
  · exact tracked.queried_unchanged id ((mem_of_concat query).resolve_right nofun)
  · rcases List.mem_append.mp mem with mem | mem
    · exact tracked.held_concat _ b' mem
    · rw [List.mem_singleton.mp mem]
      exact tracked.held_concat _ b held

theorem run (run : (objects CName).Run σ calls) : Tracked σ calls := by
  induction run with
  | init start =>
    rw [start]
    exact initial
  | step run step ih =>
    cases step with
    | update name table => exact ih.update name table
    | delete name => exact ih.delete name
    | query name => exact ih.query name
    | nested held => exact ih.nested held _

omit [DecidableEq CName] in
theorem isdirty (tracked : Tracked σ calls) {b : HeldBox} (held : b ∈ σ.boxes) :
    σ.isdirty b = true := by
  obtain ⟨n, query⟩ := tracked.held b held
  obtain ⟨⟨st, found, -⟩, -⟩ := tracked.queried n b.state query
  rw [Objects.isdirty, found]
  exact tracked.marked st (List.mem_of_getElem? found)

omit [DecidableEq CName] in
/-- The state of a box is superseded by an update or a deletion after a query that gave it. -/
theorem superseded_iff (tracked : Tracked σ calls) {b : HeldBox} (held : b ∈ σ.boxes) :
    σ.Superseded b ↔ ∃ n, Replaced calls n b.state := by
  constructor
  · rintro ⟨st, found, gone⟩
    obtain ⟨n, query⟩ := tracked.held b held
    obtain ⟨⟨st', found', rfl⟩, stored⟩ := tracked.queried n b.state query
    cases found.symm.trans found'
    exact ⟨st.name, Classical.not_not.mp (mt stored.mpr gone)⟩
  · rintro ⟨n, call, changes, sub⟩
    have query : ObjectCall.query n (some b.state) ∈ calls := sub.subset List.mem_cons_self
    obtain ⟨⟨st, found, rfl⟩, stored⟩ := tracked.queried n b.state query
    exact ⟨st, found, fun still => stored.mp still ⟨call, changes, sub⟩⟩

end Tracked

/-- The mark of a box says whether its state has been superseded exactly when its name has been
updated or deleted since a query of the state. -/
theorem isdirty_iff [DecidableEq CName] {σ : Objects CName} {calls : List (ObjectCall CName)}
    (run : (objects CName).Run σ calls) {b : HeldBox} (held : b ∈ σ.boxes) :
    (σ.isdirty b = true ↔ σ.Superseded b) ↔ ∃ n, Replaced calls n b.state := by
  have tracked := Tracked.run run
  have marked : σ.isdirty b = true := tracked.isdirty held
  rw [← tracked.superseded_iff held]
  exact ⟨fun same => same.mp marked, fun gone => iff_of_true marked gone⟩

namespace Objects

/-- A state is stored and queried. -/
def queried : Objects Unit := ((⟨[], fun _ => none, []⟩ : Objects Unit).update () {}).query ()

theorem run_queried : (objects Unit).Run queried [.update () {}, .query () (some 0)] := by
  have stored : (objects Unit).Run _ [.update () {}] := .step (.init rfl) (Step.update _ () {})
  exact .step stored (Step.query _ ())

end Objects

/-- The state of a box is superseded, and the mark says so. -/
theorem isdirty_iff_updated :
    ((Objects.queried.update () {}).isdirty ⟨0, {}⟩ = true ↔
        (Objects.queried.update () {}).Superseded ⟨0, {}⟩) ↔
      ∃ n, Replaced [.update () {}, .query () (some 0), .update () {}] n 0 :=
  isdirty_iff (b := ⟨0, {}⟩)
    (.step Objects.run_queried (Objects.Step.update Objects.queried () {})) List.mem_cons_self

/-- A box is dirty when its state has just been stored. -/
theorem not_isdirty_iff_stored : ¬∀ (CName : Type) [DecidableEq CName] (σ : Objects CName)
    (calls : List (ObjectCall CName)), (objects CName).Run σ calls → ∀ b ∈ σ.boxes,
    (σ.isdirty b = true ↔ σ.Superseded b) := by
  intro all
  obtain ⟨st, found, gone⟩ :=
    (all Unit Objects.queried _ Objects.run_queried ⟨0, {}⟩ List.mem_cons_self).mp rfl
  exact gone rfl

end Starnet.Sharedata
