import Starnet.Core.Token

/-! Execution of Lua code. The token keeps the workers apart, but `NewService` puts a service in the
services map before it runs `OnInit`, and takes no token for it: a message or a kill that arrives
meanwhile lets a worker take the service. When no worker takes a service that is still being
initialised, at most one thread executes its Lua code. -/

namespace Starnet.Core

open Transition

variable {n : Nat} {σ σ' : State n} {e : Event n}

/-- The threads that execute Lua code of a service: the one that runs its `OnInit` inside
`NewService`, and the workers in its `OnMsg` or `OnExit`. -/
inductive LuaThread (n : Nat)
  | creator
  | worker (w : Fin n)

/-- Thread `t` executes Lua code of service `r`. -/
def Executes (σ : State n) (r : ServiceRef) : LuaThread n → Prop
  | .creator => (σ.srv r).phase = .running
  | .worker w => (σ.worker w).executing = some r

/-- At most one thread executes Lua code of `r`. -/
def SingleExecution (σ : State n) (r : ServiceRef) : Prop :=
  ∀ t t', Executes σ r t → Executes σ r t' → t = t'

/-- A worker that takes a service from the global queue finds that its `OnInit` has returned. -/
def TakesInitialised (σ : State n) (e : Event n) : Prop :=
  ∀ w r, e = .take w r → (σ.srv r).phase = .returned

theorem WorkerPc.held_of_executing {pc : WorkerPc} {r : ServiceRef}
    (h : pc.executing = some r) : pc.held = some r := by
  cases pc <;> simp_all [WorkerPc.executing, WorkerPc.held]

/-- When no worker takes a service that is being initialised, a held service is past `OnInit`. -/
theorem held_returned {tr : List (Event n)} (run : ((node n).restrict TakesInitialised).Run σ tr)
    {w : Fin n} {r : ServiceRef} (h : (σ.worker w).held = some r) :
    (σ.srv r).phase = .returned := by
  revert w r
  refine run.invariant (P := fun σ _ => ∀ {w r}, (σ.worker w).held = some r →
    (σ.srv r).phase = .returned) ?_ ?_
  · rintro σ rfl w r h
    contradiction
  · intro σ tr e σ' run ih step w r h
    have born := Born.run run.of_restrict
    rcases step.1.held_of h with held | rfl
    · exact (step.1.grows born r).returned (ih held)
    · cases step.1 with
      | sleep taken =>
        cases taken with
        | take => exact (step.1.grows born r).returned (step.2 w r rfl)
      | service other | call other | wake other | turn other | main other => cases other

/-- In every run in which a worker takes a service only after its `OnInit` has returned, at most
one thread executes Lua code of a service. -/
theorem singleExecution_of_takesInitialised {tr : List (Event n)}
    (run : ((node n).restrict TakesInitialised).Run σ tr) (r : ServiceRef) :
    SingleExecution σ r := by
  have token := Token.run run.of_restrict r
  have idle : ∀ w, (σ.worker w).executing = some r → (σ.srv r).phase ≠ .running := by
    intro w executing running
    have returned := held_returned run (WorkerPc.held_of_executing executing)
    rw [running] at returned
    contradiction
  intro t t' ht ht'
  cases t with
  | creator =>
    cases t' with
    | creator => rfl
    | worker w => exact absurd ht (idle w ht')
  | worker w =>
    cases t' with
    | creator => exact absurd ht' (idle w ht)
    | worker w' =>
      exact congrArg _ (token.unique (WorkerPc.held_of_executing ht)
        (WorkerPc.held_of_executing ht'))

/-- A worker processes a message of a service whose `OnInit` has returned. -/
theorem singleExecution_onMsg : ∃ (σ : State 1) (tr : List (Event 1)),
    ((node 1).restrict TakesInitialised).Run σ tr ∧ (σ.worker 0).executing = some 0 ∧
      SingleExecution σ 0 := by
  have quiet : ∀ {σ : State 1} {e : Event 1}, (∀ w r, e ≠ .take w r) → TakesInitialised σ e :=
    fun no w r eq => absurd eq (no w r)
  have h0 : ((node 1).restrict TakesInitialised).Run _ _ := .init rfl
  have h1 := h0.step ⟨.service (.newService _), quiet (by simp)⟩
  have h2 := h1.step ⟨.service (.onInit (r := 0) rfl), quiet (by simp)⟩
  have h3 := h2.step ⟨.service (.onInitReturn (r := 0) rfl), quiet (by simp)⟩
  have h4 := h3.step ⟨.call (.send (k := 0) 1 (request 1) rfl), quiet (by simp)⟩
  have h5 := h4.step ⟨.call (.sendFound (k := 0) (r := 0) rfl rfl), quiet (by simp)⟩
  have h6 := h5.step ⟨.call (.sendPush (k := 0) rfl rfl), quiet (by simp)⟩
  have h7 := h6.step ⟨.call (.sendEnter (k := 0) rfl), quiet (by simp)⟩
  have h8 := h7.step ⟨.sleep (.take (w := 0) (r := 0) rfl rfl), by rintro w r ⟨⟩; rfl⟩
  have h9 := h8.step ⟨.turn (.readLength (w := 0) rfl rfl), quiet (by simp)⟩
  have h10 := h9.step ⟨.turn (.processPop (w := 0) (i := 0) rfl rfl rfl), quiet (by simp)⟩
  have h11 := h10.step ⟨.turn (.readOverload (w := 0) rfl rfl), quiet (by simp)⟩
  exact ⟨_, _, h11, rfl, singleExecution_of_takesInitialised h11 0⟩

/-- A request that arrives while `OnInit` still runs is processed by a worker at the same time. -/
theorem not_singleExecution_onInit :
    ¬ ∀ (σ : State 1) (tr : List (Event 1)), (node 1).Run σ tr → ∀ r, SingleExecution σ r := by
  intro claim
  have h0 : (node 1).Run _ _ := .init rfl
  have h1 := h0.step (.service (.newService _))
  have h2 := h1.step (.service (.onInit (r := 0) rfl))
  have h3 := h2.step (.call (.send (k := 0) 1 (request 1) rfl))
  have h4 := h3.step (.call (.sendFound (k := 0) (r := 0) rfl rfl))
  have h5 := h4.step (.call (.sendPush (k := 0) rfl rfl))
  have h6 := h5.step (.call (.sendEnter (k := 0) rfl))
  have h7 := h6.step (.sleep (.take (w := 0) (r := 0) rfl rfl))
  have h8 := h7.step (.turn (.readLength (w := 0) rfl rfl))
  have h9 := h8.step (.turn (.processPop (w := 0) (i := 0) rfl rfl rfl))
  have h10 := h9.step (.turn (.readOverload (w := 0) rfl rfl))
  have both := claim _ _ h10 0 .creator (.worker 0) rfl rfl
  contradiction

end Starnet.Core
