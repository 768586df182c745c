import Starnet.Core.Step

/-! The names of services. `KillService` removes the names that its service has at that time;
`starnet_handle_namehandle` does not ask whether there is a service with the handle. -/

namespace Starnet.Core

open Transition

variable {n : Nat} {σ σ' : State n} {tr : List (Event n)} {e : Event n}

/-- `starnet_handle_findname`. -/
def State.findname (σ : State n) (name : String) : UInt32 := (σ.nameMap.lookup name).getD 0

/-- The call is inside `KillService`. -/
def CallPc.inKill : CallPc → Bool
  | killGet _ | killErase _ _ | killName _ _ | killMark _ | killRead _ | killEnter _ => true
  | _ => false

/-- A call of `KillService` has found the service with this id, and has not removed its names. -/
def CallPc.clears : CallPc → Option UInt32
  | killErase id _ | killName id _ => some id
  | _ => none

theorem CallPc.inKill_of_clears {pc : CallPc} {id : UInt32} (h : pc.clears = some id) :
    pc.inKill = true := by
  cases pc with
  | killErase | killName => rfl
  | _ => cases h

/-- The handle is 0, that of a service in the map, or one whose names are about to be removed. -/
def State.Nameable (σ : State n) (handle : UInt32) : Prop :=
  handle = 0 ∨ (σ.getService handle).isSome ∨ ∃ k, (σ.call k).clears = some handle

/-- A name is added only for a handle of this kind. -/
def NamesService (σ : State n) (_ : Event n) (σ' : State n) : Prop :=
  ∀ entry ∈ σ'.nameMap, entry ∈ σ.nameMap ∨ σ.Nameable entry.2

/-- All names are those of such handles. -/
def Named (σ : State n) : Prop := ∀ entry ∈ σ.nameMap, σ.Nameable entry.2

namespace Named

theorem initial : Named (State.initial n) := List.forall_mem_nil _

/-- A step that adds no name, keeps the ids in the map and goes on with the calls that clear names.
-/
theorem keep (named : Named σ) (nameMap : ∀ entry ∈ σ'.nameMap, entry ∈ σ.nameMap)
    (services : ∀ id, (σ.getService id).isSome → (σ'.getService id).isSome)
    (clears : ∀ k id, (σ.call k).clears = some id → (σ'.call k).clears = some id) : Named σ' := by
  intro entry mem
  rcases named entry (nameMap entry mem) with zero | live | ⟨k, clearing⟩
  · exact Or.inl zero
  · exact Or.inr (Or.inl (services _ live))
  · exact Or.inr (Or.inr ⟨k, clears k _ clearing⟩)

/-- A step that changes neither the names, nor the map, nor the calls. -/
theorem same (named : Named σ) (nameMap : σ'.nameMap = σ.nameMap)
    (services : σ'.services = σ.services) (call : σ'.call = σ.call) : Named σ' := by
  refine named.keep (fun entry mem => nameMap ▸ mem) (fun id live => ?_) fun k id h => by rwa [call]
  rw [State.getService, services]
  exact live

/-- A call goes on that does not clear names. -/
theorem setCall (named : Named σ) {k : Nat} {pc : CallPc} (before : (σ.call k).clears = none) :
    Named (σ.setCall k pc) := by
  refine named.keep (fun _ => id) (fun _ => id) fun k' id clearing => ?_
  by_cases eq : k' = k
  · subst eq
    cases before.symm.trans clearing
  · rwa [State.setCall_call_other _ _ _ eq]

theorem newService (named : Named σ) : Named σ.newService := by
  refine named.keep (fun _ => id) (fun id live => ?_) fun _ _ => id
  unfold State.getService State.newService at *
  dsimp only
  split
  · exact live
  · rw [List.lookup_append, Option.isSome_or, live, Bool.true_or]

/-- `services.erase(id)`: the names of this id are about to be removed. -/
theorem killErase (named : Named σ) {k : Nat} {id : UInt32} {r : ServiceRef}
    (h : σ.call k = .killErase id r) : Named ((σ.eraseService id).setCall k (.killName id r)) := by
  intro entry mem
  have here : (((σ.eraseService id).setCall k (.killName id r)).call k).clears = some id := by
    rw [State.setCall_call_same]
    rfl
  by_cases own : entry.2 = id
  · exact Or.inr (Or.inr ⟨k, own ▸ here⟩)
  rcases named entry mem with zero | live | ⟨k', clearing⟩
  · exact Or.inl zero
  · refine Or.inr (Or.inl ?_)
    obtain ⟨entry', mem', same⟩ := List.lookup_isSome_iff.mp live
    refine List.lookup_isSome_iff.mpr ⟨entry', List.mem_filter.mpr ⟨mem', ?_⟩, same⟩
    rw [← eq_of_beq same]
    exact decide_eq_true own
  · refine Or.inr (Or.inr ⟨k', ?_⟩)
    have other : k' ≠ k := by
      rintro rfl
      rw [h] at clearing
      exact own (Option.some.inj clearing).symm
    rwa [State.setCall_call_other _ _ _ other]

/-- `starnet_handle_removename`. -/
theorem killName (named : Named σ) {k : Nat} {id : UInt32} {r : ServiceRef}
    (h : σ.call k = .killName id r) : Named ((σ.removeName id).setCall k (.killMark r)) := by
  intro entry mem
  obtain ⟨mem, other⟩ := List.mem_filter.mp mem
  have other : entry.2 ≠ id := of_decide_eq_true other
  rcases named entry mem with zero | live | ⟨k', clearing⟩
  · exact Or.inl zero
  · exact Or.inr (Or.inl live)
  · refine Or.inr (Or.inr ⟨k', ?_⟩)
    have ne : k' ≠ k := by
      rintro rfl
      rw [h] at clearing
      exact other (Option.some.inj clearing).symm
    rwa [State.setCall_call_other _ _ _ ne]

/-- `starnet_handle_namehandle`, for a handle that may have a name. -/
theorem nameHandle (named : Named σ) {handle : UInt32} {name : String}
    (allowed : NamesService σ e (σ.nameHandle handle name)) : Named (σ.nameHandle handle name) :=
  fun entry mem => (allowed entry mem).elim (named entry) id

theorem callStep (named : Named σ) (step : CallStep σ e σ') : Named σ' := by
  cases step with
  | send _ _ h | sendFound h | sendMissed h | kill _ h | killFound h | killMissed h | killRead h =>
    exact named.setCall (by rw [h]; rfl)
  | @sendPush k r msg h =>
    have pushed : Named (σ.modQueue r fun mq => mq.push msg) := named.same rfl rfl rfl
    exact pushed.setCall (show (σ.call k).clears = none by rw [h]; rfl)
  | @sendEnter k r h | @killEnter k r h =>
    have entered : Named (σ.tryEnterGlobal r) := named.same rfl rfl rfl
    exact entered.setCall (show (σ.call k).clears = none by rw [h]; rfl)
  | killErase h => exact named.killErase h
  | killName h => exact named.killName h
  | @killMark k r h =>
    have marked : Named (σ.modService r fun s => { s with isExiting := true }) :=
      named.same rfl rfl rfl
    exact marked.setCall (show (σ.call k).clears = none by rw [h]; rfl)

theorem turnStep (named : Named σ) (step : TurnStep σ e σ') : Named σ' := by
  cases step with
  | readLength | processDone | onMsgReturn | testLive | testExited | clearResume | processPop
  | processNone | readOverload | testExiting | finish | onExitReturn | clearDrop | clearDone =>
    exact named.same rfl rfl rfl
  | @clearSend w r msg rest toId err k _ _ _ idle =>
    have dropped : Named (σ.modQueue r fun mq => mq.dropFront) := named.same rfl rfl rfl
    have sent : Named ((σ.modQueue r fun mq => mq.dropFront).setCall k (.sendGet toId err)) :=
      dropped.setCall (show (σ.call k).clears = none by rw [idle]; rfl)
    exact sent.same rfl rfl rfl

theorem step (named : Named σ) (step : Step σ e σ') (allowed : NamesService σ e σ') :
    Named σ' := by
  cases step with
  | service step =>
    cases step with
    | newService => exact named.newService
    | onInit | onInitReturn => exact named.same rfl rfl rfl
    | nameService => exact named.nameHandle allowed
  | call step => exact named.callStep step
  | wake step =>
    cases step with
    | wakeTest h | wakeCount h | wakeLength h | wakeNone h =>
      exact named.setCall (by rw [h]; rfl)
    | @wakeSignal k w h =>
      have woken : Named (σ.setWorker w .woken) := named.same rfl rfl rfl
      exact woken.setCall (show (σ.call k).clears = none by rw [h]; rfl)
  | sleep step => cases step <;> exact named.same rfl rfl rfl
  | turn step => exact named.turnStep step
  | main step =>
    cases step with
    | killAll | killReturn | setExit | wakeAll => exact named.same rfl rfl rfl
    | @killNext id ids k h idle =>
      have next : Named { σ with main := .killCall ids k } := named.same rfl rfl rfl
      exact next.setCall (show (σ.call k).clears = none by rw [idle]; rfl)

theorem run (run : ((node n).confine NamesService).Run σ tr) : Named σ :=
  run.stateInvariant (fun _ start => start ▸ initial)
    fun _ _ _ named step => named.step step.1 step.2

/-- Outside of `KillService`, a name is that of a service in the map. -/
theorem findname (named : Named σ) (quiet : ∀ k, (σ.call k).inKill = false) (name : String) :
    σ.findname name = 0 ∨ (σ.getService (σ.findname name)).isSome := by
  unfold State.findname
  cases found : σ.nameMap.lookup name with
  | none => exact Or.inl rfl
  | some handle =>
    obtain ⟨before, after, eq, -⟩ := List.lookup_eq_some_iff.mp found
    have mem : (name, handle) ∈ σ.nameMap := by
      rw [eq]
      exact List.mem_append_right _ List.mem_cons_self
    rcases named _ mem with zero | live | ⟨k, clearing⟩
    · exact Or.inl zero
    · exact Or.inr live
    · cases (quiet k).symm.trans (CallPc.inKill_of_clears clearing)

end Named

/-- In a run in which names are given to services only, a name resolves to no service or to one in
the map whenever no `KillService` is in progress. -/
theorem resolves_of_namesService (run : ((node n).confine NamesService).Run σ tr)
    (quiet : ∀ k, (σ.call k).inKill = false) (name : String) :
    σ.findname name = 0 ∨ (σ.getService (σ.findname name)).isSome :=
  (Named.run run).findname quiet name

/-- The first service gets the name "a". -/
theorem resolves_of_namesService_first :
    (((State.initial 1).newService.nameHandle 1 "a").getService 1).isSome := by
  have h0 : ((node 1).confine NamesService).Run (State.initial 1) [] := .init rfl
  have h1 := h0.step ⟨.service (.newService _), fun _ => Or.inl⟩
  have h2 := h1.step ⟨.service (.nameService _ 1 "a"), fun entry mem => Or.inr (Or.inr (Or.inl ?_))⟩
  · have resolved := resolves_of_namesService h2 (fun _ => rfl) "a"
    exact resolved.resolve_left (by decide)
  · rw [List.mem_singleton.mp mem]
    rfl

/-- A handler of the first service kills the service, and then gives it the name "a". -/
theorem not_resolves_killed : ¬ ∀ (σ : State 1) (tr : List (Event 1)), (node 1).Run σ tr →
    (∀ k, (σ.call k).inKill = false) → ∀ name,
    σ.findname name = 0 ∨ (σ.getService (σ.findname name)).isSome := by
  intro claim
  have h0 : (node 1).Run (State.initial 1) [] := .init rfl
  have h1 := h0.step (.service (.newService _))
  have h2 := h1.step (.call (.kill (k := 0) 1 rfl))
  have h3 := h2.step (.call (.killFound (k := 0) (r := 0) rfl rfl))
  have h4 := h3.step (.call (.killErase (k := 0) rfl))
  have h5 := h4.step (.call (.killName (k := 0) rfl))
  have h6 := h5.step (.call (.killMark (k := 0) rfl))
  have h7 := h6.step (.call (.killRead (k := 0) (r := 0) rfl))
  have h8 := h7.step (.call (.killEnter (k := 0) rfl))
  have h9 := h8.step (.service (.nameService _ 1 "a"))
  have resolved := claim _ _ h9 (by rintro (_ | k) <;> rfl) "a"
  revert resolved
  decide

end Starnet.Core
