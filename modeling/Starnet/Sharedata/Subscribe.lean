import Starnet.Sharedata.Store

/-! Subscriptions of `sharedata.lua`. The subscriber reads the version of a name every 100 ms and
queries the name when the version is a new one. Each call of the store is a step of its own, between
which other services publish. -/

namespace Starnet.Sharedata

open Transition

/-- Who runs `sharedata.query` in the service of the subscriber. -/
inductive Asker
  | subscriber
  | other
  deriving DecidableEq, Repr

/-- Where the service of the subscriber stands. -/
inductive PollPc (T : Type)
  | idle
  | checking (asker : Asker)
  | fetching (asker : Asker)
  | calling (box : TableState T)

/-- The subscriber is in the middle of a poll. -/
def PollPc.polling {T : Type} : PollPc T → Bool
  | checking .subscriber | fetching .subscriber | calling _ => true
  | _ => false

/-- What follows a query: the subscriber calls its function, unless there is no table. -/
def Asker.after {T : Type} : Asker → Option (TableState T) → PollPc T
  | subscriber, some box => .calling box
  | _, _ => .idle

theorem Asker.other_after {T : Type} (box : Option (TableState T)) :
    Asker.other.after box = .idle := by
  cases box <;> rfl

/-- The store, the cache entry of the name, and the subscription. `last` is there once
`sharedata.subscribe` has been called. -/
structure Subscription (CName T : Type) where
  store : Store CName T
  cached : Option (TableState T)
  pc : PollPc T
  last : Option UInt32

/-- The calls of the store by any service, the loss of the cache entry, and the steps of the service
of the subscriber. -/
inductive SubEvent (CName T : Type)
  | new (name : CName) (table : T)
  | delete (name : CName)
  | collect
  | subscribe
  | poll
  | ask
  | check
  | fetch
  | call (box : TableState T)

variable {CName T : Type}

/-- The boxes that the function of the subscriber is called with. -/
def shown (events : List (SubEvent CName T)) : List (TableState T) :=
  events.filterMap fun
    | .call box => some box
    | _ => none

theorem shown_append (events later : List (SubEvent CName T)) :
    shown (events ++ later) = shown events ++ shown later := by
  rw [shown, List.filterMap_append]
  rfl

/-- The box shows the table that was published as the one with its version. -/
def Genuine (ts : List T) (box : TableState T) : Prop := ts[box.version.toNat]? = some box.table

namespace Subscription

/-- The service of the subscriber finds the cached box fresh. -/
def Fresh (n : CName) (σ : Subscription CName T) : Prop :=
  ∃ box, σ.cached = some box ∧ box.version = σ.store.version n

/-- A subscription to the name `n`. -/
inductive Step [DecidableEq CName] (n : CName) :
    Subscription CName T → SubEvent CName T → Subscription CName T → Prop
  | new (σ : Subscription CName T) (name : CName) (table : T) :
      Step n σ (.new name table) { σ with store := σ.store.update name table }
  | delete (σ : Subscription CName T) (name : CName) :
      Step n σ (.delete name) { σ with store := σ.store.delete name }
  | collect (σ : Subscription CName T) : Step n σ .collect { σ with cached := none }
  | subscribe {σ : Subscription CName T} (idle : σ.pc = .idle) (first : σ.last = none) :
      Step n σ .subscribe { σ with last := some (σ.store.version n) }
  | poll {σ : Subscription CName T} {last : UInt32} (idle : σ.pc = .idle)
      (before : σ.last = some last) (same : σ.store.version n = last) : Step n σ .poll σ
  | pollNew {σ : Subscription CName T} {last : UInt32} (idle : σ.pc = .idle)
      (before : σ.last = some last) (new : σ.store.version n ≠ last) :
      Step n σ .poll
        { σ with last := some (σ.store.version n), pc := .checking .subscriber }
  | ask {σ : Subscription CName T} (idle : σ.pc = .idle) :
      Step n σ .ask { σ with pc := .checking .other }
  | hit {σ : Subscription CName T} {asker : Asker} {box : TableState T}
      (checking : σ.pc = .checking asker) (cached : σ.cached = some box)
      (fresh : box.version = σ.store.version n) :
      Step n σ .check { σ with pc := asker.after (some box) }
  | miss {σ : Subscription CName T} {asker : Asker} (checking : σ.pc = .checking asker)
      (stale : ¬σ.Fresh n) : Step n σ .check { σ with pc := .fetching asker }
  | fetch {σ : Subscription CName T} {asker : Asker} (fetching : σ.pc = .fetching asker) :
      Step n σ .fetch { σ with cached := σ.store n, pc := asker.after (σ.store n) }
  | call {σ : Subscription CName T} {box : TableState T} (calling : σ.pc = .calling box) :
      Step n σ (.call box) { σ with pc := .idle }

end Subscription

/-- A subscription beside any calls of any services. -/
def subscription [DecidableEq CName] (n : CName) : System (Subscription CName T) (SubEvent CName T) where
  init σ := σ = ⟨fun _ => none, none, .idle, none⟩
  step := Subscription.Step n

/-! ### What a run shows -/

/-- The tables that are published under a name, in order. -/
def tables [DecidableEq CName] (n : CName) (events : List (SubEvent CName T)) : List T :=
  events.filterMap fun
    | .new name table => if name = n then some table else none
    | _ => none

/-- The subscriber keeps up with the tables that are published: its function sees tables that were
published, in their order, at most once for each new one, and after a poll it has seen the table that
was the newest one at the poll, or a newer one. Left out are the tables from before the subscription
and the first one of the name, whose version is that of a name that does not exist. -/
structure KeepsUp [DecidableEq CName] (n : CName) (before events : List (SubEvent CName T))
    (pc : PollPc T) : Prop where
  genuine : ∀ box ∈ shown events, Genuine (tables n (before ++ events)) box
  inOrder : (shown events).Pairwise fun box box' => box.version ≤ box'.version
  once : (shown events).length + max 1 (tables n before).length ≤
    max 1 (tables n (before ++ events)).length
  newest : pc.polling = false → ∀ early late, events = early ++ .poll :: late →
    (tables n (before ++ early)).length ≤ max 1 (tables n before).length ∨
      ∃ box ∈ shown events, (tables n (before ++ early)).length ≤ box.version.toNat + 1

/-! ### The store and the cache -/

section Stored

variable {n : CName} {σ σ' : Subscription CName T} {e : SubEvent CName T}
  {events : List (SubEvent CName T)} {ts : List T} {box : TableState T}

theorem Genuine.lt (genuine : Genuine ts box) : box.version.toNat < ts.length :=
  (List.getElem?_eq_some_iff.mp genuine).1

theorem Genuine.append (genuine : Genuine ts box) (later : List T) : Genuine (ts ++ later) box := by
  rw [Genuine, List.getElem?_append_left genuine.lt]
  exact genuine

/-- The newest state of a name whose tables are `ts`. -/
def newest (ts : List T) : Option (TableState T) :=
  ts.getLast?.map fun table => ⟨UInt32.ofNat (ts.length - 1), table⟩

theorem toNat_last (few : ts.length ≤ 2 ^ 32) :
    (UInt32.ofNat (ts.length - 1)).toNat = ts.length - 1 :=
  UInt32.toNat_ofNat_of_lt' (by simp only [UInt32.size]; omega)

theorem genuine_newest (few : ts.length ≤ 2 ^ 32) (eq : newest ts = some box) : Genuine ts box := by
  obtain ⟨table, last, rfl⟩ := Option.map_eq_some_iff.mp eq
  rw [Genuine, toNat_last few, ← List.getLast?_eq_getElem?]
  exact last

/-- The store has the newest table of the name, and the boxes of the service show published ones. -/
structure Stored (n : CName) (σ : Subscription CName T) (ts : List T) : Prop where
  store : σ.store n = newest ts
  cached : ∀ box, σ.cached = some box → Genuine ts box

theorem Stored.version (stored : Stored n σ ts) :
    σ.store.version n = UInt32.ofNat (ts.length - 1) := by
  rw [Store.version, stored.store, newest]
  cases ts using List.reverseRecOn with
  | nil => rfl
  | append_singleton => simp

variable [DecidableEq CName]

theorem tables_append (events later : List (SubEvent CName T)) :
    tables n (events ++ later) = tables n events ++ tables n later := by
  rw [tables, List.filterMap_append]
  rfl

theorem Stored.new (stored : Stored n σ ts) (table : T) :
    Stored n { σ with store := σ.store.update n table } (ts ++ [table]) := by
  refine ⟨?_, fun box cached => (stored.cached box cached).append _⟩
  have next : σ.store.nextVersion n = UInt32.ofNat ts.length := by
    rw [Store.nextVersion, stored.store, newest]
    cases ts using List.reverseRecOn with
    | nil => rfl
    | append_singleton ts last => simp
  simp [Store.update, newest, next]

theorem stored_step (few : (tables n (events ++ [e])).length ≤ 2 ^ 32) (kept : e ≠ .delete n)
    (stored : Stored n σ (tables n events)) (step : Subscription.Step n σ e σ') :
    Stored n σ' (tables n (events ++ [e])) := by
  rw [tables_append] at few ⊢
  cases step with
  | new name table =>
    by_cases same : name = n
    · subst same
      simpa [tables] using stored.new table
    · refine ⟨?_, by simpa [tables, same] using stored.cached⟩
      simpa [tables, same, Store.update, Function.update_of_ne (Ne.symm same)] using stored.store
  | delete name =>
    have other : n ≠ name := fun same => kept (congrArg SubEvent.delete same.symm)
    refine ⟨?_, by simpa [tables] using stored.cached⟩
    simpa [tables, Store.delete, Function.update_of_ne other] using stored.store
  | collect => exact ⟨by simpa [tables] using stored.store, by simp⟩
  | fetch =>
    rw [show tables n [SubEvent.fetch (T := T)] = [] from rfl, List.append_nil] at few ⊢
    exact ⟨stored.store, fun box cached => genuine_newest few (stored.store.symm.trans cached)⟩
  | _ => exact ⟨by simpa [tables] using stored.store, by simpa [tables] using stored.cached⟩

theorem stored_run (run : (subscription n).Run σ events) (kept : .delete n ∉ events)
    (few : (tables n events).length ≤ 2 ^ 32) : Stored n σ (tables n events) := by
  induction run with
  | init start =>
    rw [start]
    exact ⟨rfl, nofun⟩
  | @step _ _ events e _ step ih =>
    have before : (tables n events).length ≤ 2 ^ 32 := by
      rw [tables_append, List.length_append] at few
      exact (Nat.le_add_right _ _).trans few
    refine stored_step few (fun same => kept ?_) (ih (fun mem => kept ?_) before) step
    · exact same ▸ List.mem_append_right _ (List.mem_singleton_self e)
    · exact List.mem_append_left _ mem

end Stored

/-! ### The subscriber -/

section Subscriber

variable {n : CName} {σ σ₀ σ' : Subscription CName T} {e : SubEvent CName T}
  {before events : List (SubEvent CName T)} {last : UInt32} {box : TableState T}

theorem polled_concat {P : List (SubEvent CName T) → Prop}
    (polled : ∀ early late, events = early ++ .poll :: late → P early) (now : e = .poll → P events) :
    ∀ early late, events ++ [e] = early ++ .poll :: late → P early := by
  intro early late eq
  rcases List.eq_nil_or_concat late with rfl | ⟨late, e', rfl⟩
  · obtain ⟨rfl, same⟩ := List.append_inj' eq rfl
    exact now (List.singleton_inj.mp same)
  · rw [List.concat_eq_append, ← List.cons_append, ← List.append_assoc] at eq
    obtain ⟨rfl, -⟩ := List.append_inj' eq rfl
    exact polled early late rfl

variable [DecidableEq CName]

/-- What is kept after the subscription, where `last` is the version that was read last. -/
structure Follows (n : CName) (before events : List (SubEvent CName T)) (σ : Subscription CName T)
    (last : UInt32) : Prop where
  read : σ.last = some last
  le : last.toNat + 1 ≤ max 1 (tables n (before ++ events)).length
  polled : ∀ early late, events = early ++ .poll :: late →
    (tables n (before ++ early)).length ≤ last.toNat + 1
  genuine : ∀ box ∈ shown events, Genuine (tables n (before ++ events)) box
  inOrder : (shown events).Pairwise fun box box' => box.version ≤ box'.version
  once : (shown events).length + (if σ.pc.polling then 1 else 0) +
    max 1 (tables n before).length ≤ last.toNat + 1
  settled : σ.pc.polling = false → last.toNat + 1 ≤ max 1 (tables n before).length ∨
    ∃ box ∈ shown events, last ≤ box.version
  calling : ∀ box, σ.pc = .calling box → Genuine (tables n (before ++ events)) box ∧
    last ≤ box.version ∧ ∀ old ∈ shown events, old.version ≤ box.version

/-- A step that reads no new version and shows no table. -/
theorem Follows.keep (follows : Follows n before events σ last) (at_last : σ'.last = σ.last)
    (silent : shown [e] = [])
    (now : e = .poll → (tables n (before ++ events)).length ≤ last.toNat + 1)
    (polling : σ'.pc.polling = σ.pc.polling)
    (calling : ∀ box, σ'.pc = .calling box → σ.pc = .calling box ∨
      Genuine (tables n (before ++ (events ++ [e]))) box ∧
        (tables n (before ++ (events ++ [e]))).length ≤ box.version.toNat + 1) :
    Follows n before (events ++ [e]) σ' last := by
  have genuine : ∀ {box}, Genuine (tables n (before ++ events)) box →
      Genuine (tables n (before ++ (events ++ [e]))) box := by
    intro box genuine
    rw [← List.append_assoc, tables_append (before ++ events)]
    exact genuine.append _
  have grows : (tables n (before ++ events)).length ≤
      (tables n (before ++ (events ++ [e]))).length := by
    rw [← List.append_assoc, tables_append (before ++ events), List.length_append]
    exact Nat.le_add_right _ _
  have le := follows.le
  constructor
  · exact at_last.trans follows.read
  · omega
  · exact polled_concat follows.polled now
  · rw [shown_append, silent, List.append_nil]
    exact fun box mem => genuine (follows.genuine box mem)
  · rw [shown_append, silent, List.append_nil]
    exact follows.inOrder
  · rw [shown_append, silent, List.append_nil, polling]
    exact follows.once
  · rw [shown_append, silent, List.append_nil, polling]
    exact follows.settled
  · rw [shown_append, silent, List.append_nil]
    intro box now
    rcases calling box now with same | ⟨shows, newest⟩
    · obtain ⟨shows, ge, olds⟩ := follows.calling box same
      exact ⟨genuine shows, ge, olds⟩
    · refine ⟨shows, UInt32.le_iff_toNat_le.mpr ?_, fun old mem => UInt32.le_iff_toNat_le.mpr ?_⟩
      · have := shows.lt
        omega
      · have := (follows.genuine old mem).lt
        omega

theorem tables_concat (silent : tables n [e] = []) :
    tables n (before ++ (events ++ [e])) = tables n (before ++ events) := by
  rw [← List.append_assoc, tables_append (before ++ events), silent, List.append_nil]

/-- A poll that reads a new version. -/
theorem Follows.pollNew (follows : Follows n before events σ last) (idle : σ.pc = .idle)
    (new : σ.store.version n ≠ last)
    (version : (σ.store.version n).toNat = (tables n (before ++ events)).length - 1) :
    Follows n before (events ++ [.poll])
      { σ with last := some (σ.store.version n), pc := .checking .subscriber }
      (σ.store.version n) := by
  have le := follows.le
  have once := follows.once
  have ne : (σ.store.version n).toNat ≠ last.toNat := fun same => new (UInt32.toNat_inj.mp same)
  have quiet : shown (events ++ [.poll]) = shown events := by
    rw [shown_append]
    exact List.append_nil _
  rw [version] at ne
  rw [idle] at once
  simp only [PollPc.polling, Bool.false_eq_true, if_false] at once
  refine ⟨rfl, ?_, ?_, ?_, ?_, ?_, by simp [PollPc.polling], by simp⟩
  · rw [tables_concat rfl, version]
    omega
  · refine polled_concat (fun early late eq => ?_) fun _ => ?_
    · have := follows.polled early late eq
      omega
    · omega
  · rw [quiet, tables_concat rfl]
    exact follows.genuine
  · rw [quiet]
    exact follows.inOrder
  · rw [quiet, version]
    simp only [PollPc.polling, if_true]
    omega

/-- The end of a poll that shows a table. -/
theorem Follows.call (follows : Follows n before events σ last) (calling : σ.pc = .calling box) :
    Follows n before (events ++ [.call box]) { σ with pc := .idle } last := by
  obtain ⟨genuine, ge, olds⟩ := follows.calling box calling
  have once := follows.once
  rw [calling] at once
  simp only [PollPc.polling, if_true] at once
  have more : shown (events ++ [.call box]) = shown events ++ [box] := shown_append ..
  refine ⟨follows.read, ?_, polled_concat follows.polled (by simp), ?_, ?_, ?_,
    fun _ => .inr ?_, by simp⟩
  · rw [tables_concat rfl]
    exact follows.le
  · rw [more, tables_concat rfl]
    intro box' mem
    rcases List.mem_append.mp mem with mem | mem
    · exact follows.genuine box' mem
    · rw [List.mem_singleton.mp mem]
      exact genuine
  · rw [more, List.pairwise_append]
    refine ⟨follows.inOrder, List.pairwise_singleton _ _, fun old mem box' mem' => ?_⟩
    rw [List.mem_singleton.mp mem']
    exact olds old mem
  · rw [more, List.length_append, List.length_singleton]
    simp only [PollPc.polling, Bool.false_eq_true, if_false]
    omega
  · rw [more]
    exact ⟨box, List.mem_append_right _ (List.mem_singleton_self box), ge⟩

theorem Follows.step (few : (tables n (before ++ events)).length ≤ 2 ^ 32)
    (stored : Stored n σ (tables n (before ++ events))) (follows : Follows n before events σ last)
    (step : Subscription.Step n σ e σ') : ∃ last', Follows n before (events ++ [e]) σ' last' := by
  have version : (σ.store.version n).toNat = (tables n (before ++ events)).length - 1 := by
    rw [stored.version, toNat_last few]
  -- a box with the version of the store shows the newest table
  have newest : ∀ {box : TableState T}, box.version = σ.store.version n →
      (tables n (before ++ events)).length ≤ box.version.toNat + 1 := by
    intro box same
    rw [same, version]
    omega
  cases step with
  | new | delete | collect =>
    exact ⟨last, follows.keep rfl rfl (by simp) rfl fun _ now => .inl now⟩
  | subscribe _ first =>
    have read := follows.read
    rw [first] at read
    cases read
  | poll _ read same =>
    obtain rfl := Option.some.inj (follows.read.symm.trans read)
    refine ⟨last, follows.keep rfl rfl (fun _ => ?_) rfl fun _ now => .inl now⟩
    rw [← same, version]
    omega
  | pollNew idle read new =>
    obtain rfl := Option.some.inj (follows.read.symm.trans read)
    exact ⟨_, follows.pollNew idle new version⟩
  | ask idle =>
    refine ⟨last, follows.keep rfl rfl (by simp) ?_ (by simp)⟩
    rw [idle]
    rfl
  | @hit asker box checking cached fresh =>
    refine ⟨last, follows.keep rfl rfl (by simp) ?_ fun box' now => .inr ?_⟩
    · rw [checking]
      cases asker <;> rfl
    · cases asker with
      | other => cases now
      | subscriber =>
        cases now
        rw [tables_concat rfl]
        exact ⟨stored.cached box cached, newest fresh⟩
  | @miss asker checking =>
    refine ⟨last, follows.keep rfl rfl (by simp) ?_ (by simp)⟩
    rw [checking]
    cases asker <;> rfl
  | @fetch asker fetching =>
    cases asker with
    | other =>
      refine ⟨last, follows.keep rfl rfl (by simp) ?_ ?_⟩
      · rw [fetching, Asker.other_after]
        rfl
      · simp [Asker.other_after]
    | subscriber =>
      cases entry : σ.store n with
      | none =>
        -- the subscriber has read a version other than that of a missing name
        have empty : (tables n (before ++ events)).length = 0 := by
          rw [List.length_eq_zero_iff, ← List.getLast?_eq_none_iff]
          exact Option.map_eq_none_iff.mp (stored.store.symm.trans entry)
        have once := follows.once
        have le := follows.le
        rw [fetching] at once
        simp only [PollPc.polling, if_true] at once
        omega
      | some box =>
        refine ⟨last, follows.keep rfl rfl (by simp) ?_ fun box' now => .inr ?_⟩
        · rw [fetching]
          rfl
        · cases now
          rw [tables_concat rfl]
          refine ⟨genuine_newest few (stored.store.symm.trans entry), newest ?_⟩
          rw [Store.version, entry]
  | call calling => exact ⟨last, follows.call calling⟩

theorem tables_subscribe (events : List (SubEvent CName T)) :
    tables n (before ++ [.subscribe] ++ events) = tables n (before ++ events) := by
  rw [tables_append, tables_append, tables_append]
  simp [tables]

theorem follows_subscribe (run : (subscription n).Run σ (before ++ [.subscribe]))
    (kept : .delete n ∉ before) (few : (tables n before).length ≤ 2 ^ 32) :
    ∃ last, Follows n before [] σ last := by
  obtain ⟨σ₁, run, step⟩ := run.last
  have version : (σ₁.store.version n).toNat = (tables n before).length - 1 := by
    rw [(stored_run run kept few).version, toNat_last few]
  cases step with
  | subscribe idle _ =>
    refine ⟨_, rfl, ?_, ?_, nofun, .nil, ?_, fun _ => .inl ?_, ?_⟩
    · rw [List.append_nil, version]
      omega
    · intro early late eq
      cases early <;> cases eq
    · simp only [idle, PollPc.polling, Bool.false_eq_true, if_false]
      rw [version, show (shown ([] : List (SubEvent CName T))).length = 0 from rfl]
      omega
    · rw [version]
      omega
    · intro box calling
      exact nomatch idle.symm.trans calling

theorem follows_run (start : (subscription n).Run σ₀ (before ++ [.subscribe]))
    (later : ((subscription n).after σ₀).Run σ events) (kept : .delete n ∉ before ++ events)
    (few : (tables n (before ++ events)).length ≤ 2 ^ 32) :
    ∃ last, Follows n before events σ last := by
  induction later with
  | init same =>
    rw [List.append_nil] at kept few
    obtain rfl := same
    exact follows_subscribe start kept few
  | @step σ σ' events e later step ih =>
    rw [← List.append_assoc] at kept few
    have few : (tables n (before ++ events)).length ≤ 2 ^ 32 := by
      rw [tables_append (before ++ events), List.length_append] at few
      exact (Nat.le_add_right _ _).trans few
    have kept : .delete n ∉ before ++ events := fun mem => kept (List.mem_append_left _ mem)
    have stored : Stored n σ (tables n (before ++ events)) := by
      rw [← tables_subscribe]
      refine stored_run (start.append later) (fun mem => kept ?_) (by rwa [tables_subscribe])
      simpa using mem
    obtain ⟨last, follows⟩ := ih kept few
    exact follows.step few stored step

/-- In every run in which the name is not deleted and is published at most `2 ^ 32` times, the
subscriber keeps up, however the services that publish run between the calls of its polls. -/
theorem subscriber_keeps_up (run : (subscription n).Run σ (before ++ .subscribe :: events))
    (kept : .delete n ∉ before ++ events)
    (few : (tables n (before ++ events)).length ≤ 2 ^ 32) : KeepsUp n before events σ.pc := by
  rw [List.append_cons] at run
  obtain ⟨σ₀, start, later⟩ := run.split
  obtain ⟨last, follows⟩ := follows_run start later kept few
  have le := follows.le
  have once := follows.once
  refine ⟨follows.genuine, follows.inOrder, by omega, fun settled early late eq => ?_⟩
  have polled := follows.polled early late eq
  rcases follows.settled settled with old | ⟨box, mem, ge⟩
  · exact .inl (by omega)
  · have := UInt32.le_iff_toNat_le.mp ge
    exact .inr ⟨box, mem, by omega⟩

/-- A table is published after the subscription, another one in the middle of the poll. -/
theorem subscriber_keeps_up_republished : KeepsUp 0 [.new 0 10]
    [.new 0 11, .poll, .new 0 12, .check, .fetch, .call ⟨2, 12⟩] (PollPc.idle (T := Nat)) := by
  let subscribed : System (Subscription Nat Nat) (SubEvent Nat Nat) := subscription 0
  have run₀ : subscribed.Run ⟨fun _ => none, none, .idle, none⟩ [] := .init rfl
  have run₁ : subscribed.Run ⟨_, none, .idle, some 0⟩ [.new 0 10, .subscribe, .new 0 11] :=
    ((run₀.step (.new _ 0 10)).step (.subscribe rfl rfl)).step (.new _ 0 11)
  have run₂ : subscribed.Run ⟨_, none, .checking .subscriber, some 1⟩ _ :=
    (run₁.step (.pollNew rfl rfl (by decide))).step (.new _ 0 12)
  have run₃ := (run₂.step (.miss rfl nofun)).step (.fetch rfl)
  have run₄ : subscribed.Run _ ([.new 0 10] ++ .subscribe :: [.new 0 11, .poll, .new 0 12, .check,
      .fetch, .call ⟨2, 12⟩]) := run₃.step (.call (rfl : _ = PollPc.calling ⟨2, 12⟩))
  exact subscriber_keeps_up run₄ (by simp) (by decide)

end Subscriber

end Starnet.Sharedata
