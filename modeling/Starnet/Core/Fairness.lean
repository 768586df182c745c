import Starnet.Core.Token

/-! The order of turns. The global queue is first in, first out, and a service stands in it at most
once: while a service waits for its turn, each service before it gets one turn, in the order of the
queue, and no other service gets one. -/

namespace Starnet.Core

open Transition

variable {n : Nat} {σ σ' : State n} {tr tr' : List (Event n)} {e : Event n} {r : ServiceRef}

/-- The service whose turn starts. -/
def Event.taken : Event n → Option ServiceRef
  | take _ r => some r
  | _ => none

/-- The services whose turns started, in this order. -/
def taken (tr : List (Event n)) : List ServiceRef := tr.filterMap Event.taken

theorem taken_concat : taken (tr ++ [e]) = taken tr ++ e.taken.toList := by
  cases h : e.taken <;> simp [taken, h]

/-- What a step does to the global queue. -/
inductive LineStep (queue : List ServiceRef) (e : Event n) (queue' : List ServiceRef) : Prop
  | take {r : ServiceRef} (event : e.taken = some r) (front : queue = r :: queue')
  | join (event : e.taken = none) {late : List ServiceRef} (back : queue' = queue ++ late)

namespace LineStep

theorem same {queue : List ServiceRef} (event : e.taken = none) : LineStep queue e queue :=
  .join event (List.append_nil _).symm

theorem tryEnterGlobal (event : e.taken = none) (r : ServiceRef) :
    LineStep σ.globalQueue e (σ.tryEnterGlobal r).globalQueue := by
  cases inside : (σ.srv r).mq.inGlobal with
  | true =>
    rw [State.tryEnterGlobal_inside inside]
    exact .same event
  | false =>
    rw [State.tryEnterGlobal_outside inside]
    exact .join event rfl

theorem finishDispatch (event : e.taken = none) (r : ServiceRef) :
    LineStep σ.globalQueue e (σ.finishDispatch r).globalQueue := by
  by_cases empty : (σ.srv r).mq.msgQueue = []
  · rw [State.finishDispatch_empty empty]
    exact .same event
  · rw [State.finishDispatch_nonempty empty]
    exact .join event rfl

theorem of_step (step : Step σ e σ') : LineStep σ.globalQueue e σ'.globalQueue := by
  cases step with
  | service h => cases h <;> exact .same rfl
  | call h =>
    cases h with
    | @sendEnter k r | @killEnter k r => exact tryEnterGlobal rfl r
    | _ => exact .same rfl
  | wake h => cases h <;> exact .same rfl
  | sleep h =>
    cases h with
    | take _ queue => exact .take rfl queue
    | _ => exact .same rfl
  | turn h =>
    cases h with
    | @finish w r => exact finishDispatch rfl r
    | _ => exact .same rfl
  | main h => cases h <;> exact .same rfl

end LineStep

/-- While `r` waits, turns start for the first services of those that stood before it. -/
theorem waits_for_before {before after : List ServiceRef}
    (later : ((node n).after σ).Run σ' tr') (queue : σ.globalQueue = before ++ r :: after)
    (waits : r ∉ taken tr') :
    ∃ rest late, σ'.globalQueue = rest ++ r :: (after ++ late) ∧ taken tr' ++ rest = before := by
  induction later with
  | init h =>
    rw [show _ = σ from h]
    exact ⟨before, [], by rw [List.append_nil, queue], rfl⟩
  | @step σ₁ σ' tr₁ e run step ih =>
    rw [taken_concat, List.mem_append, not_or] at waits
    obtain ⟨rest, late, line, same⟩ := ih waits.1
    have moved := LineStep.of_step step
    rw [line] at moved
    rw [taken_concat]
    cases moved with
    | @take r' event front =>
      cases rest with
      | nil =>
        obtain ⟨rfl, -⟩ := List.cons.inj front
        simp [event] at waits
      | cons first rest =>
        obtain ⟨rfl, line⟩ := List.cons.inj front
        exact ⟨rest, late, line.symm, by rw [event, ← same]; simp⟩
    | @join event more back =>
      refine ⟨rest, late ++ more, ?_, by rw [event, ← same]; simp⟩
      rw [back]
      simp

/-- No service stands in the global queue twice. -/
theorem globalQueue_nodup (run : (node n).Run σ tr) : σ.globalQueue.Nodup := by
  refine List.nodup_iff_count_le_one.mpr fun r => ?_
  have token := Token.run run r
  cases exited : (σ.srv r).exited with
  | true =>
    rw [(token.dead exited).1]
    exact Nat.zero_le _
  | false =>
    have sum := token.live exited
    split at sum <;> omega

/-- A service that stands in the global queue is not overtaken, whatever the other threads do: until
its next turn no service gets two turns and only those before it get one, in their order, and all of
them have had their turn when its own turn starts. -/
theorem no_overtaking (run : (node n).Run σ tr) {before after : List ServiceRef}
    (queue : σ.globalQueue = before ++ r :: after) (later : ((node n).after σ).Run σ' tr')
    (waits : r ∉ taken tr') :
    before.Nodup ∧ taken tr' <+: before ∧
      ∀ w σ'', Step σ' (.take w r) σ'' → taken tr' = before := by
  have distinct := globalQueue_nodup run
  rw [queue] at distinct
  obtain ⟨nodup, -, apart⟩ := List.nodup_append.mp distinct
  obtain ⟨rest, late, line, same⟩ := waits_for_before later queue waits
  refine ⟨nodup, ⟨rest, same⟩, fun w σ'' step => ?_⟩
  have moved := LineStep.of_step step
  rw [line] at moved
  cases moved with
  | take event front =>
    cases event
    cases rest with
    | nil => rw [← same, List.append_nil]
    | cons first rest =>
      obtain ⟨rfl, -⟩ := List.cons.inj front
      exact absurd rfl (apart _ (by simp [← same]) _ List.mem_cons_self)
  | join event => cases event

/-- Of two services in the queue the first gets a turn and comes back behind the second. -/
theorem no_overtaking_two : ∃ (σ σ' σ'' : State 1) (tr tr' : List (Event 1)),
    (node 1).Run σ tr ∧ σ.globalQueue = [0, 1] ∧ ((node 1).after σ).Run σ' tr' ∧
      σ'.globalQueue = [1, 0] ∧ Step σ' (.take 0 1) σ'' ∧ taken tr' = [0] := by
  have h0 : (node 1).Run _ _ := .init rfl
  have h1 := h0.step (.service (.newService _))
  have h2 := h1.step (.service (.newService _))
  have h3 := h2.step (.call (.send (k := 0) 1 (request 1) rfl))
  have h4 := h3.step (.call (.sendFound (k := 0) (r := 0) rfl rfl))
  have h5 := h4.step (.call (.sendPush (k := 0) rfl rfl))
  have h6 := h5.step (.call (.sendEnter (k := 0) rfl))
  have h7 := h6.step (.call (.send (k := 1) 2 (request 1) rfl))
  have h8 := h7.step (.call (.sendFound (k := 1) (r := 1) rfl rfl))
  have h9 := h8.step (.call (.sendPush (k := 1) rfl rfl))
  have h10 := h9.step (.call (.sendEnter (k := 1) rfl))
  have l0 := h10.here
  have l1 := l0.step (.sleep (.take (w := 0) (r := 0) rfl rfl))
  have l2 := l1.step (.turn (.readLength (w := 0) rfl rfl))
  have l3 := l2.step (.turn (.processPop (w := 0) (i := 0) rfl rfl rfl))
  have l4 := l3.step (.turn (.readOverload (w := 0) rfl rfl))
  have l5 := l4.step (.call (.send (k := 2) 1 (request 1) rfl))
  have l6 := l5.step (.call (.sendFound (k := 2) (r := 0) rfl rfl))
  have l7 := l6.step (.call (.sendPush (k := 2) rfl rfl))
  have l8 := l7.step (.turn (.onMsgReturn (w := 0) rfl))
  have l9 := l8.step (.turn (.processDone (w := 0) rfl))
  have l10 := l9.step (.turn (.testLive (w := 0) rfl rfl))
  have l11 := l10.step (.turn (.finish (w := 0) rfl rfl))
  refine ⟨_, _, _, _, _, h10, rfl, l11, rfl, .sleep (.take rfl rfl), ?_⟩
  exact (no_overtaking h10 (show _ = [0] ++ 1 :: [] from rfl) l11 (by decide)).2.2 0 _
    (.sleep (.take rfl rfl))

end Starnet.Core
