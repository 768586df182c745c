import Mathlib.Logic.Function.Basic
import Starnet.Lib.Transition

/-! The store of shared tables and the caches of `sharedata.lua`. Every service has a cache of
boxes, and a box counts as fresh when its version is the version of its name in the store. -/

namespace Starnet.Sharedata

open Transition

/-- A `TableState`, and the state that a box holds. -/
structure TableState (T : Type) where
  version : UInt32
  table : T

section Store

variable {CName T : Type} [DecidableEq CName]

/-- `SharedataStore::map_`. -/
abbrev Store (CName T : Type) := CName → Option (TableState T)

namespace Store

/-- The version that `SharedataStore::Update` gives a name. -/
def nextVersion (store : Store CName T) (n : CName) : UInt32 :=
  match store n with
  | some st => st.version + 1
  | none => 0

def update (store : Store CName T) (n : CName) (table : T) : Store CName T :=
  Function.update store n (some ⟨store.nextVersion n, table⟩)

def delete (store : Store CName T) (n : CName) : Store CName T := Function.update store n none

/-- `SharedataStore::Version`. -/
def version (store : Store CName T) (n : CName) : UInt32 :=
  match store n with
  | some st => st.version
  | none => 0

end Store

end Store

/-- The store and the cache of every service. A name is a Lua value; the store knows it by the C
string that `luaL_checkstring` makes of it. -/
structure Sharing (Service Name CName T : Type) where
  store : Store CName T
  cache : Service → Name → Option (TableState T)

/-- The calls, with the box that a query returns, and the loss of a weak cache entry. -/
inductive Call (Service Name T : Type)
  | new (s : Service) (name : Name) (table : T)
  | delete (s : Service) (name : Name)
  | query (s : Service) (name : Name) (box : Option (TableState T))
  | collect (s : Service) (name : Name)

variable {Service Name CName T : Type}

section Calls

variable [DecidableEq Service] [DecidableEq Name] [DecidableEq CName]

namespace Sharing

def setCache (σ : Sharing Service Name CName T) (s : Service) (name : Name)
    (box : Option (TableState T)) : Sharing Service Name CName T :=
  { σ with cache := Function.update σ.cache s (Function.update (σ.cache s) name box) }

/-- `sharedata.query`: the box, and the state after the call. -/
def query (cname : Name → CName) (σ : Sharing Service Name CName T) (s : Service) (name : Name) :
    Option (TableState T) × Sharing Service Name CName T :=
  match σ.cache s name with
  | some b =>
    if b.version = σ.store.version (cname name) then (some b, σ)
    else (σ.store (cname name), σ.setCache s name (σ.store (cname name)))
  | none => (σ.store (cname name), σ.setCache s name (σ.store (cname name)))

/-- `sharedata.new` and `sharedata.update`, on loaded data. -/
def new (cname : Name → CName) (σ : Sharing Service Name CName T) (name : Name) (table : T) :
    Sharing Service Name CName T :=
  { σ with store := σ.store.update (cname name) table }

def delete (cname : Name → CName) (σ : Sharing Service Name CName T) (s : Service) (name : Name) :
    Sharing Service Name CName T :=
  let σ := σ.setCache s name none
  { σ with store := σ.store.delete (cname name) }

/-- Steps of any services in any order. -/
inductive Step (cname : Name → CName) :
    Sharing Service Name CName T → Call Service Name T → Sharing Service Name CName T → Prop
  | new (σ : Sharing Service Name CName T) (s : Service) (name : Name) (table : T) :
      Step cname σ (.new s name table) (σ.new cname name table)
  | delete (σ : Sharing Service Name CName T) (s : Service) (name : Name) :
      Step cname σ (.delete s name) (σ.delete cname s name)
  | query (σ : Sharing Service Name CName T) (s : Service) (name : Name) :
      Step cname σ (.query s name (σ.query cname s name).1) (σ.query cname s name).2
  | collect (σ : Sharing Service Name CName T) (s : Service) (name : Name) :
      Step cname σ (.collect s name) (σ.setCache s name none)

end Sharing

/-- All runs, from an empty store and empty caches. -/
def sharing (cname : Name → CName) :
    System (Sharing Service Name CName T) (Call Service Name T) where
  init σ := σ = ⟨fun _ => none, fun _ _ => none⟩
  step := Sharing.Step cname

end Calls

/-- The table most recently published under a name, unless it has been deleted since. -/
def published [DecidableEq CName] (cname : Name → CName) (n : CName) (calls : List (Call Service Name T)) : Option T :=
  calls.foldl (fun table call =>
    match call with
    | .new _ name table' => if cname name = n then some table' else table
    | .delete _ name => if cname name = n then none else table
    | _ => table) none

/-- Every query of the calls returns a view of the table that is published when it is made. -/
def NeverStale [DecidableEq CName] (cname : Name → CName) (calls : List (Call Service Name T)) : Prop :=
  ∀ before s name box after, calls = before ++ .query s name box :: after →
    box.map TableState.table = published cname (cname name) before

/-- A call that publishes or deletes a name gives it a version that no box of that name, still
cached after the call, carries. -/
def FreshVersion [DecidableEq Service] [DecidableEq Name] (cname : Name → CName) (σ : Sharing Service Name CName T) :
    Call Service Name T → Prop
  | .new _ name _ => ∀ s' name' box, σ.cache s' name' = some box → cname name' = cname name →
      box.version ≠ σ.store.nextVersion (cname name)
  | .delete s name => ∀ s' name' box, (σ.setCache s name none).cache s' name' = some box →
      cname name' = cname name → box.version ≠ 0
  | _ => True

/-- A cached box whose version is the one of its name is the state in the store. -/
def Sharing.Current (cname : Name → CName) (σ : Sharing Service Name CName T) : Prop :=
  ∀ s name box, σ.cache s name = some box → box.version = σ.store.version (cname name) →
    σ.store (cname name) = some box

/-! ### One step -/

namespace Sharing

variable {cname : Name → CName} {σ : Sharing Service Name CName T} {s : Service} {name : Name}
  [DecidableEq Service] [DecidableEq Name]

theorem setCache_cache (box : Option (TableState T)) (s' : Service) (name' : Name) :
    (σ.setCache s name box).cache s' name' =
      if s' = s ∧ name' = name then box else σ.cache s' name' := by
  simp only [setCache]
  by_cases service : s' = s
  · subst service
    rw [Function.update_self]
    by_cases same : name' = name
    · rw [same, Function.update_self, if_pos ⟨rfl, rfl⟩]
    · rw [Function.update_of_ne same, if_neg fun both => same both.2]
  · rw [Function.update_of_ne service, if_neg fun both => service both.1]

theorem Current.setCache (current : σ.Current cname) {box : Option (TableState T)}
    (fetched : box = none ∨ box = σ.store (cname name)) : (σ.setCache s name box).Current cname := by
  intro s' name' box' cached same
  rw [setCache_cache] at cached
  split at cached
  · rename_i both
    subst cached
    rw [both.2]
    exact (fetched.resolve_left nofun).symm
  · exact current s' name' box' cached same

/-- A query returns the state in the store. -/
theorem Current.query_eq (current : σ.Current cname) (s : Service) (name : Name) :
    (σ.query cname s name).1 = σ.store (cname name) := by
  rw [query]
  cases cached : σ.cache s name with
  | none => rfl
  | some b =>
    by_cases same : b.version = σ.store.version (cname name)
    · simp only [if_pos same, current s name b cached same]
    · simp only [if_neg same]

theorem query_store (σ : Sharing Service Name CName T) (s : Service) (name : Name) :
    (σ.query cname s name).2.store = σ.store := by
  rw [query]
  split
  · split <;> rfl
  · rfl

theorem Current.query (current : σ.Current cname) (s : Service) (name : Name) :
    (σ.query cname s name).2.Current cname := by
  rw [Sharing.query]
  split
  · split
    · exact current
    · exact current.setCache (Or.inr rfl)
  · exact current.setCache (Or.inr rfl)

theorem Current.new [DecidableEq CName] (current : σ.Current cname) {table : T}
    (fresh : FreshVersion cname σ (.new s name table)) : (σ.new cname name table).Current cname := by
  intro s' name' box cached same
  simp only [Sharing.new, Store.update, Store.version] at same ⊢
  by_cases eq : cname name' = cname name
  · rw [eq, Function.update_self] at same
    exact absurd same (fresh s' name' box cached eq)
  · rw [Function.update_of_ne eq] at same ⊢
    exact current s' name' box cached same

theorem Current.delete [DecidableEq CName] (current : σ.Current cname)
    (fresh : FreshVersion cname σ (.delete s name)) : (σ.delete cname s name).Current cname := by
  intro s' name' box cached same
  simp only [Sharing.delete, Store.delete, Store.version] at cached same ⊢
  by_cases eq : cname name' = cname name
  · rw [eq, Function.update_self] at same
    exact absurd same (fresh s' name' box cached eq)
  · rw [Function.update_of_ne eq] at same ⊢
    exact current.setCache (Or.inl rfl) s' name' box cached same

end Sharing

/-! ### Runs -/

section Runs

variable {cname : Name → CName} {σ : Sharing Service Name CName T} {calls : List (Call Service Name T)}
  [DecidableEq CName]

theorem published_concat (n : CName) (call : Call Service Name T) :
    published cname n (calls ++ [call]) =
      match call with
      | .new _ name table => if cname name = n then some table else published cname n calls
      | .delete _ name => if cname name = n then none else published cname n calls
      | _ => published cname n calls := by
  rw [published, List.foldl_append]
  rfl

/-- The calls before and after a query are those before the last one, or the query is the last. -/
theorem NeverStale.concat {call : Call Service Name T} (stale : NeverStale cname calls)
    (last : ∀ s name box, call = .query s name box →
      box.map TableState.table = published cname (cname name) calls) :
    NeverStale cname (calls ++ [call]) := by
  intro before s name box after eq
  rcases List.eq_nil_or_concat after with rfl | ⟨after, call', rfl⟩
  · obtain ⟨rfl, same⟩ := List.append_inj' eq rfl
    exact last s name box (List.singleton_inj.mp same)
  · rw [List.concat_eq_append, ← List.cons_append, ← List.append_assoc] at eq
    obtain ⟨rfl, -⟩ := List.append_inj' eq rfl
    exact stale before s name box after rfl

variable [DecidableEq Service] [DecidableEq Name]

/-- The store holds what is published. -/
theorem store_published (run : (sharing cname).Run σ calls) (n : CName) :
    (σ.store n).map TableState.table = published cname n calls := by
  induction run with
  | init start =>
    rw [start]
    rfl
  | step run step ih =>
    rw [published_concat]
    cases step with
    | new s name table =>
      simp only [Sharing.new, Store.update]
      by_cases eq : cname name = n
      · subst eq
        rw [Function.update_self, if_pos rfl]
        rfl
      · rw [Function.update_of_ne (Ne.symm eq), if_neg eq]
        exact ih
    | delete s name =>
      simp only [Sharing.delete, Store.delete]
      by_cases eq : cname name = n
      · subst eq
        rw [Function.update_self, if_pos rfl]
        rfl
      · rw [Function.update_of_ne (Ne.symm eq), if_neg eq]
        exact ih
    | query s name =>
      rw [Sharing.query_store]
      exact ih
    | collect s name => exact ih

theorem current_of_freshVersion
    (run : ((sharing cname).restrict (FreshVersion cname)).Run σ calls) : σ.Current cname := by
  induction run with
  | init start =>
    rw [start]
    exact nofun
  | step run step ih =>
    obtain ⟨step, fresh⟩ := step
    cases step with
    | new s name table => exact ih.new fresh
    | delete s name => exact ih.delete fresh
    | query s name => exact ih.query s name
    | collect s name => exact ih.setCache (Or.inl rfl)

/-- In a run in which no call gives a name a version that a cached box of it carries, queries are
never stale. -/
theorem neverStale_of_freshVersion
    (run : ((sharing cname).restrict (FreshVersion cname)).Run σ calls) : NeverStale cname calls := by
  induction run with
  | init _ =>
    intro before s name box after eq
    cases before <;> cases eq
  | step run step ih =>
    refine ih.concat fun s name box eq => ?_
    obtain ⟨step, -⟩ := step
    cases step with
    | query s' name' =>
      cases eq
      rw [(current_of_freshVersion run).query_eq]
      exact store_published run.of_restrict _
    | new | delete | collect => cases eq

end Runs

/-- The C string of a Lua string. -/
def cstring (name : List UInt8) : List UInt8 := name.takeWhile (· ≠ 0)

/-- No tables and no boxes. -/
def empty : Sharing Nat (List UInt8) (List UInt8) Nat := ⟨fun _ => none, fun _ _ => none⟩

/-- Service 0 publishes two tables under "t", and queries after each. -/
theorem neverStale_republished : NeverStale cstring
    [.new (0 : Nat) [116] 1, .query 0 [116] (some ⟨0, 1⟩), .new 0 [116] 2, .query 0 [116] (some ⟨1, 2⟩)] := by
  have h0 : ((sharing cstring).restrict (FreshVersion cstring)).Run empty [] := .init rfl
  have h1 := h0.step ⟨.new _ 0 [116] 1, nofun⟩
  have h2 := h1.step ⟨.query _ 0 [116], trivial⟩
  have fresh : FreshVersion cstring (((empty.new cstring [116] 1)).query cstring 0 [116]).2
      (.new 0 [116] 2) := by
    intro s' name' box cached _
    have stored : (((empty.new cstring [116] 1)).query cstring 0 [116]).2 =
        (empty.new cstring [116] 1).setCache 0 [116] (some ⟨0, 1⟩) := rfl
    rw [stored, Sharing.setCache_cache] at cached
    split at cached
    · cases cached
      decide
    · cases cached
  have h3 := h2.step ⟨.new _ 0 [116] 2, fresh⟩
  have h4 := h3.step ⟨.query _ 0 [116], trivial⟩
  exact neverStale_of_freshVersion h4

/-- Service 0 has a box of version 0 when service 1 deletes the table, and gets it again. -/
theorem not_neverStale_deleted :
    ¬∀ (σ : Sharing Nat (List UInt8) (List UInt8) Nat) (calls : List (Call Nat (List UInt8) Nat)),
      (sharing cstring).Run σ calls → NeverStale cstring calls := by
  intro claim
  have h0 : (sharing cstring).Run empty [] := .init rfl
  have h1 := h0.step (.new _ 0 [116] 1)
  have h2 := h1.step (.query _ 0 [116])
  have h3 := h2.step (.delete _ 1 [116])
  have h4 := h3.step (.query _ 0 [116])
  have stale := claim _ _ h4 [.new 0 [116] 1, .query 0 [116] (some ⟨0, 1⟩), .delete 1 [116]] 0 [116]
    (some ⟨0, 1⟩) [] rfl
  cases stale

end Starnet.Sharedata
