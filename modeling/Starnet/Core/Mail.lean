import Starnet.Core.Actors
import Starnet.Core.Registry
import Starnet.Core.Turn

/-! Messages on their way. `Starnet::Send` looks its service up by an id, and `NewService` counts the
ids up, so a message is queued at the service that has the id to which it was sent. What holds of
every message that is given to `Send` with that id holds of it in the queue and in `OnMsg`. -/

namespace Starnet.Core

open Transition

variable {n : Nat} {σ σ' : State n} {tr : List (Event n)} {e : Event n} {r : ServiceRef}
  {msg : BaseMsg}

/-! ### The ids -/

/-- The services have the ids 1, 2 and so on in the order in which they were created. -/
structure Numbered (σ : State n) : Prop where
  maxId : σ.maxId = UInt32.ofNat σ.nextRef
  id : ∀ r < σ.nextRef, (σ.srv r).id = UInt32.ofNat (r + 1)

theorem Step.id_eq (step : Step σ e σ') (old : r < σ.nextRef) :
    (σ'.srv r).id = (σ.srv r).id := by
  have update : ∀ (r' : ServiceRef) (s : Service), s.id = (σ.srv r').id →
      (Function.update σ.srv r' s r).id = (σ.srv r).id := fun r' s same =>
    State.modService_keeps σ r' (g := fun s => s.id) (f := fun _ => s) same r
  cases step with
  | service step =>
    cases step with
    | newService =>
      exact congrArg Service.id (Function.update_of_ne (Nat.ne_of_lt old) ..)
    | onInit | onInitReturn => exact update _ _ rfl
    | nameService => rfl
  | call step =>
    cases step with
    | sendPush | sendEnter | killEnter | killMark => exact update _ _ rfl
    | _ => rfl
  | wake step => cases step <;> rfl
  | sleep step => cases step <;> rfl
  | turn step =>
    cases step with
    | processPop | processNone | readOverload | finish | onExitReturn | clearDrop | clearSend
    | clearDone | testExiting => exact update _ _ rfl
    | _ => rfl
  | main step => cases step <;> rfl

theorem Step.counts (step : Step σ e σ') :
    σ'.nextRef = σ.nextRef ∧ σ'.maxId = σ.maxId ∨
      σ'.nextRef = σ.nextRef + 1 ∧ σ'.maxId = σ.maxId + 1 ∧
        (σ'.srv σ.nextRef).id = σ.maxId + 1 := by
  cases step with
  | service step =>
    cases step with
    | newService =>
      refine .inr ⟨rfl, rfl, ?_⟩
      simp only [State.newService, Function.update_self]
    | onInit | onInitReturn | nameService => exact .inl ⟨rfl, rfl⟩
  | call step => cases step <;> exact .inl ⟨rfl, rfl⟩
  | wake step => cases step <;> exact .inl ⟨rfl, rfl⟩
  | sleep step => cases step <;> exact .inl ⟨rfl, rfl⟩
  | turn step => cases step <;> exact .inl ⟨rfl, rfl⟩
  | main step => cases step <;> exact .inl ⟨rfl, rfl⟩

namespace Numbered

theorem step (numbered : Numbered σ) (step : Step σ e σ') : Numbered σ' := by
  rcases step.counts with ⟨refs, maxId⟩ | ⟨refs, maxId, new⟩
  · refine ⟨by rw [maxId, refs, numbered.maxId], fun r lt => ?_⟩
    rw [refs] at lt
    rw [step.id_eq lt, numbered.id r lt]
  · have next : σ.maxId + 1 = UInt32.ofNat (σ.nextRef + 1) := by
      rw [numbered.maxId, UInt32.ofNat_add]
      rfl
    refine ⟨by rw [maxId, refs, next], fun r lt => ?_⟩
    rw [refs] at lt
    rcases Nat.lt_succ_iff_lt_or_eq.mp lt with old | rfl
    · rw [step.id_eq old, numbered.id r old]
    · rw [new, next]

theorem run (run : (node n).Run σ tr) : Numbered σ := by
  refine run.stateInvariant ?_ fun _ _ _ numbered step => numbered.step step
  rintro _ rfl
  exact ⟨rfl, fun r lt => absurd lt (Nat.not_lt_zero r)⟩

/-- Before `2 ^ 32` services have been created, no two have one id. -/
theorem injective (numbered : Numbered σ) (few : σ.nextRef < 2 ^ 32) {r' : ServiceRef}
    (old : r < σ.nextRef) (old' : r' < σ.nextRef) (same : (σ.srv r).id = (σ.srv r').id) :
    r = r' := by
  have lt : r + 1 < 2 ^ 32 := Nat.lt_of_le_of_lt old few
  have lt' : r' + 1 < 2 ^ 32 := Nat.lt_of_le_of_lt old' few
  rw [numbered.id r old, numbered.id r' old', ← UInt32.toNat_inj, UInt32.toNat_ofNat',
    UInt32.toNat_ofNat', Nat.mod_eq_of_lt lt, Nat.mod_eq_of_lt lt'] at same
  exact Nat.succ.inj same

end Numbered

/-! ### Where messages come from -/

/-- A call takes its message when it starts, and keeps it when it finds the service. -/
theorem Step.call_of (step : Step σ e σ') (k : Nat) :
    (∀ toId msg, σ'.call k = .sendGet toId msg →
      σ.call k = .sendGet toId msg ∨ σ.call k = .idle) ∧
    ∀ r msg, σ'.call k = .sendPush r msg →
      σ.call k = .sendPush r msg ∨
        ∃ toId, σ.call k = .sendGet toId msg ∧ σ.getService toId = some r := by
  have same : σ'.call = σ.call →
      (∀ toId msg, σ'.call k = .sendGet toId msg →
        σ.call k = .sendGet toId msg ∨ σ.call k = .idle) ∧
      ∀ r msg, σ'.call k = .sendPush r msg → σ.call k = .sendPush r msg ∨
        ∃ toId, σ.call k = .sendGet toId msg ∧ σ.getService toId = some r := by
    intro calls
    rw [calls]
    exact ⟨fun _ _ => .inl, fun _ _ => .inl⟩
  have other : ∀ {k' : Nat} {pc : CallPc}, σ'.call = Function.update σ.call k' pc →
      (∀ toId msg, pc = .sendGet toId msg → σ.call k' = .idle) →
      (∀ r msg, pc = .sendPush r msg →
        ∃ toId, σ.call k' = .sendGet toId msg ∧ σ.getService toId = some r) →
      (∀ toId msg, σ'.call k = .sendGet toId msg →
        σ.call k = .sendGet toId msg ∨ σ.call k = .idle) ∧
      ∀ r msg, σ'.call k = .sendPush r msg → σ.call k = .sendPush r msg ∨
        ∃ toId, σ.call k = .sendGet toId msg ∧ σ.getService toId = some r := by
    intro k' pc calls gets pushes
    rw [calls]
    by_cases mine : k = k'
    · subst mine
      rw [Function.update_self]
      exact ⟨fun toId msg h => .inr (gets toId msg h), fun r msg h => .inr (pushes r msg h)⟩
    · rw [Function.update_of_ne mine]
      exact ⟨fun _ _ => .inl, fun _ _ => .inl⟩
  have entered : ∀ r, (∀ toId msg, σ.afterEnter r ≠ .sendGet toId msg) ∧
      ∀ r' msg, σ.afterEnter r ≠ .sendPush r' msg := by
    intro r
    unfold State.afterEnter
    split <;> exact ⟨nofun, nofun⟩
  cases step with
  | service step => cases step <;> exact same rfl
  | call step =>
    cases step with
    | send _ _ idle => exact other rfl (fun _ _ _ => idle) nofun
    | sendFound h found => exact other rfl nofun (by rintro _ _ ⟨⟩; exact ⟨_, h, found⟩)
    | sendEnter | killEnter =>
      exact other rfl (fun _ _ h => absurd h ((entered _).1 _ _))
        fun _ _ h => absurd h ((entered _).2 _ _)
    | killRead => exact other rfl (by split <;> exact nofun) (by split <;> exact nofun)
    | sendMissed | sendPush | kill | killFound | killMissed | killErase | killName | killMark =>
      exact other rfl nofun nofun
  | wake step =>
    cases step with
    | wakeTest | wakeLength => exact other rfl (by split <;> exact nofun) (by split <;> exact nofun)
    | wakeCount | wakeSignal | wakeNone => exact other rfl nofun nofun
  | sleep step => cases step <;> exact same rfl
  | turn step =>
    cases step with
    | clearSend _ _ _ idle => exact other rfl (fun _ _ _ => idle) nofun
    | _ => exact same rfl
  | main step =>
    cases step with
    | killNext => exact other rfl nofun nofun
    | _ => exact same rfl

theorem Step.push_inv {k : Nat} (step : Step σ (.push k r msg) σ') :
    σ.call k = .sendPush r msg := by
  cases step with
  | call step =>
    cases step with
    | sendPush h => exact h
  | service step | wake step | sleep step | turn step | main step => cases step

/-- A message comes to a queue by the `Push` of a call. -/
theorem Step.queued_of (step : Step σ e σ') (born : Born σ)
    (mem : msg ∈ (σ'.srv r).mq.msgQueue) :
    msg ∈ (σ.srv r).mq.msgQueue ∨ ∃ k, σ.call k = .sendPush r msg := by
  cases step.queueStep born r with
  | keep _ queue => exact .inl (queue ▸ mem)
  | push event mq =>
    rw [mq, StarnetMQ.push_msgQueue] at mem
    rcases List.mem_append.mp mem with old | new
    · exact .inl old
    · subst event
      cases List.mem_singleton.mp new
      exact .inr ⟨_, step.push_inv⟩
  | pop _ _ popped mq =>
    rw [mq] at mem
    rw [StarnetMQ.pop_some popped]
    exact .inl (List.mem_cons_of_mem _ mem)
  | popNone _ _ popped mq =>
    rw [mq, (StarnetMQ.pop_none popped).2] at mem
    cases mem
  | overload _ _ mq =>
    rw [mq, StarnetMQ.takeOverload_msgQueue] at mem
    exact .inl mem
  | drop _ _ queue mq =>
    rw [mq, StarnetMQ.dropFront_msgQueue, queue] at mem
    exact .inl (queue ▸ List.mem_cons_of_mem _ mem)

/-- A worker takes a message from the queue of the service. -/
theorem Step.serves_of (step : Step σ e σ') {w : Fin n}
    (serves : (σ'.worker w).serves = some (r, msg)) :
    (σ.worker w).serves = some (r, msg) ∨ msg ∈ (σ.srv r).mq.msgQueue := by
  have other : ∀ {w' : Fin n} {pc : WorkerPc}, σ'.worker = Function.update σ.worker w' pc →
      (pc.serves = some (r, msg) →
        (σ.worker w').serves = some (r, msg) ∨ msg ∈ (σ.srv r).mq.msgQueue) →
      (σ.worker w).serves = some (r, msg) ∨ msg ∈ (σ.srv r).mq.msgQueue := by
    intro w' pc worker moves
    rw [worker] at serves
    by_cases mine : w = w'
    · subst mine
      rw [Function.update_self] at serves
      exact moves serves
    · rw [Function.update_of_ne mine] at serves
      exact .inl serves
  cases step with
  | service step => cases step <;> exact .inl serves
  | call step => cases step <;> exact .inl serves
  | wake step =>
    cases step with
    | wakeSignal => exact other rfl (by rintro ⟨⟩)
    | wakeTest | wakeCount | wakeLength | wakeNone => exact .inl serves
  | sleep step =>
    cases step with
    | readExit => exact other rfl (by split <;> rintro ⟨⟩)
    | take | takeNone | lockSleep | condWait | spurious | resume =>
      exact other rfl (by rintro ⟨⟩)
  | turn step =>
    cases step with
    | processPop _ _ popped =>
      refine other rfl ?_
      rintro ⟨⟩
      rw [StarnetMQ.pop_some popped]
      exact .inr (List.mem_cons_self ..)
    | readOverload h => exact other rfl fun same => .inl (by rw [h]; exact same)
    | clearDrop => exact .inl serves
    | readLength | processDone | processNone | onMsgReturn | testLive | testExiting | testExited
    | finish | onExitReturn | clearSend | clearResume | clearDone =>
      exact other rfl (by rintro ⟨⟩)
  | main step =>
    cases step with
    | wakeAll =>
      simp only [State.broadcast] at serves
      split at serves
      · cases serves
      · exact .inl serves
    | killAll | killNext | killReturn | setExit => exact .inl serves

/-! ### Messages on their way -/

/-- What holds of every message that a call, a queue or a worker has, with the id of its service. -/
structure Carries (P : UInt32 → BaseMsg → Prop) (σ : State n) : Prop where
  sends : ∀ k toId msg, σ.call k = .sendGet toId msg → P toId msg
  pushes : ∀ k r msg, σ.call k = .sendPush r msg → P (σ.srv r).id msg
  queued : ∀ r, ∀ msg ∈ (σ.srv r).mq.msgQueue, P (σ.srv r).id msg
  serves : ∀ w r msg, (σ.worker w).serves = some (r, msg) → P (σ.srv r).id msg

namespace Carries

variable {P Q : UInt32 → BaseMsg → Prop}

theorem initial : Carries P (State.initial n) := by
  constructor <;> simp [State.initial, WorkerPc.serves]

theorem mono (c : Carries P σ) (weaker : ∀ toId msg, P toId msg → Q toId msg) : Carries Q σ :=
  ⟨fun k toId msg h => weaker _ _ (c.sends k toId msg h),
    fun k r msg h => weaker _ _ (c.pushes k r msg h),
    fun r msg mem => weaker _ _ (c.queued r msg mem),
    fun w r msg h => weaker _ _ (c.serves w r msg h)⟩

/-- It is enough that it holds of the messages that are given to `Send`. -/
theorem step (c : Carries P σ) (born : Born σ) (reg : Registry σ) (step : Step σ e σ')
    (new : ∀ k toId msg, σ.call k = .idle → σ'.call k = .sendGet toId msg → P toId msg) :
    Carries P σ' := by
  have kept : ∀ {r msg}, r < σ.nextRef → P (σ.srv r).id msg → P (σ'.srv r).id msg := by
    intro r msg old holds
    rw [step.id_eq old]
    exact holds
  have queues : ∀ {r msg}, msg ∈ (σ.srv r).mq.msgQueue → P (σ'.srv r).id msg := by
    intro r msg mem
    refine kept ?_ (c.queued r msg mem)
    by_contra fresh
    rw [born.srv r (Nat.le_of_not_lt fresh)] at mem
    cases mem
  have pushed : ∀ {k r msg}, σ.call k = .sendPush r msg → P (σ'.srv r).id msg := by
    intro k r msg h
    exact kept (born.call k r (by rw [h]; rfl)) (c.pushes k r msg h)
  constructor
  · intro k toId msg h
    rcases (step.call_of k).1 toId msg h with same | idle
    · exact c.sends k toId msg same
    · exact new k toId msg idle h
  · intro k r msg h
    rcases (step.call_of k).2 r msg h with same | ⟨toId, gets, found⟩
    · exact pushed same
    · refine kept (born.found found) ?_
      rw [(reg.found found).1]
      exact c.sends k toId msg gets
  · intro r msg mem
    rcases step.queued_of born mem with same | ⟨k, h⟩
    · exact queues same
    · exact pushed h
  · intro w r msg h
    rcases step.serves_of h with same | mem
    · exact kept (born.worker w r (WorkerPc.held_of_serves same)) (c.serves w r msg same)
    · exact queues mem

end Carries

end Starnet.Core
