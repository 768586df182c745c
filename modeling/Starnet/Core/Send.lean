import Starnet.Core.Step

/-! A call of `Starnet::Send` as a whole: what it leaves in the queues when no other thread runs
between its sections. -/

namespace Starnet.Core

variable {n : Nat}

namespace State

/-- `Starnet::Send` up to `CheckAndWeakUp`; a service that is not found is reported to the log
only. -/
def send (σ : State n) (toId : UInt32) (msg : BaseMsg) : State n :=
  match σ.getService toId with
  | none => σ
  | some r => (σ.modQueue r fun mq => mq.push msg).tryEnterGlobal r

variable {σ : State n} {toId : UInt32} {r : ServiceRef}

/-- `TryEnterGlobal` changes `inGlobal` of a service alone. -/
theorem tryEnterGlobal_keeps {β : Type} {g : Service → β}
    (keeps : ∀ s : Service, g { s with mq := { s.mq with inGlobal := true } } = g s) (σ : State n)
    (r r' : ServiceRef) : g ((σ.tryEnterGlobal r).srv r') = g (σ.srv r') := by
  cases inside : (σ.srv r).mq.inGlobal with
  | true => rw [tryEnterGlobal_inside inside]
  | false =>
    rw [tryEnterGlobal_outside inside]
    exact modService_keeps σ r (g := g) (f := fun s => { s with mq := { s.mq with inGlobal := true } })
      (keeps (σ.srv r)) r'

theorem send_id (σ : State n) (toId : UInt32) (msg : BaseMsg) (r : ServiceRef) :
    ((σ.send toId msg).srv r).id = (σ.srv r).id := by
  unfold send
  split
  · rfl
  · next r' found =>
    rw [tryEnterGlobal_keeps (g := Service.id) (fun _ => rfl)]
    exact modService_keeps σ r' (g := Service.id)
      (f := fun s => { s with mq := s.mq.push msg }) rfl r

/-- The message is at the end of the queue of the service that is found, and of no other. -/
theorem send_msgQueue (σ : State n) (toId : UInt32) (msg : BaseMsg) (r : ServiceRef) :
    ((σ.send toId msg).srv r).mq.msgQueue =
      (σ.srv r).mq.msgQueue ++ if σ.getService toId = some r then [msg] else [] := by
  unfold send
  split
  · next missed => rw [missed, if_neg nofun, List.append_nil]
  · next r' found =>
    rw [tryEnterGlobal_keeps (g := fun s => s.mq.msgQueue) (fun _ => rfl), found]
    by_cases same : r = r'
    · subst same
      rw [if_pos rfl, modQueue, modService_srv_same]
      rfl
    · rw [if_neg fun eq => same (Option.some.inj eq).symm, modQueue, modService_srv_other _ _ _ same,
        List.append_nil]

/-- The sections of a call of `Send` one after the other. -/
theorem send_run {k : Nat} {msg : BaseMsg} (idle : σ.call k = .idle)
    (found : σ.getService toId = some r) (free : (σ.srv r).mq.queueLock = false) :
    ((node n).after σ).Run
      ((σ.send toId msg).setCall k ((σ.modQueue r fun mq => mq.push msg).afterEnter r))
      [.tau, .found k r msg, .push k r msg, .tau] := by
  have start : ((node n).after σ).Run σ [] := .init rfl
  have get := start.step (.call (.send toId msg idle))
  have push := get.step (.call (.sendFound (setCall_call_same ..) found))
  have enter := push.step (.call (.sendPush (setCall_call_same ..) free))
  have done := enter.step (.call (.sendEnter (setCall_call_same ..)))
  have again : ∀ pc pc' (τ : State n), (τ.setCall k pc).setCall k pc' = τ.setCall k pc' := by
    intro pc pc' τ
    simp only [setCall, Function.update_idem]
  rw [send, found, ← again (.sendGet toId msg), ← again (.sendPush r msg), ← again (.sendEnter r)]
  exact done

end State

end Starnet.Core
