import Starnet.Core.Final
import Starnet.Core.Retire

/-! Graceful shutdown. `KillAllServices` kills the services of a snapshot of the map, then `SetExit`
lets the workers go. A worker tests `IsExit` after it has found the global queue empty, without a
lock that covers both, and a service that a handler creates after the snapshot is in no kill list.
When the last worker leaves with the global queue empty, and the later services have been killed by
then, every service has gone through its exit path once. -/

namespace Starnet.Core

open Transition

variable {n : Nat} {σ σ' : State n} {tr : List (Event n)} {e : Event n} {r : ServiceRef}
  {limit : ServiceRef}

/-- Every worker has left its loop. -/
def AllLeft (σ : State n) : Prop := ∀ w, σ.worker w = .left

/-- All workers but one have left, and that one is about to leave. -/
def LastLeaves (σ : State n) : Prop :=
  σ.exitFlag = true ∧ ∃ w, σ.worker w = .readExit ∧ ∀ w', w' ≠ w → σ.worker w' = .left

/-- The exit path of service `r` has run exactly once. -/
def ExitedOnce (tr : List (Event n)) (r : ServiceRef) : Prop := exits r tr = 1 ∧ clears r tr = 1

/-- Which threads call `NewService` and `KillService`: Lua code that a worker executes, and the main
thread, before the shutdown and in `KillAllServices`. -/
structure CalledFromLua (σ : State n) (e : Event n) : Prop where
  create : ∀ r, e = .created r → ∃ w, σ.worker w ≠ .left
  kill : ∀ k r, (σ.call k).kills = some r →
    σ.main = .waiting ∨ (∃ ids, σ.main = .killCall ids k) ∨
      ∃ w r', (σ.worker w).executing = some r'

/-- The shutdown finds everything: `KillService` schedules what it marks and erases only the entry
that it found, and when the last worker leaves, the global queue is empty and so is the services
map of the services `limit, limit + 1, …` that were created after the snapshot. -/
structure DrainsInTime (limit : ServiceRef) (σ : State n) (e : Event n) : Prop where
  reads : ReadsSettled σ e
  erases : ∀ k id r r', σ.call k = .killErase id r → (id, r') ∈ σ.services → r' = r
  snapshot : σ.main ≠ .waiting → limit ≤ σ.nextRef
  queue : LastLeaves σ → σ.globalQueue = []
  later : LastLeaves σ → ∀ entry ∈ σ.services, entry.2 < limit

/-! ### Services on their way to be marked -/

/-- Service `r` is in the services map, is found by a call of `KillService`, or is marked. -/
def Known (σ : State n) (r : ServiceRef) : Prop :=
  (∃ id, (id, r) ∈ σ.services) ∨ (∃ k, (σ.call k).kills = some r) ∨ (σ.srv r).isExiting = true

namespace Known

theorem of_found {id : UInt32} (h : σ.getService id = some r) : Known σ r := by
  obtain ⟨before, after, eq, -⟩ := List.lookup_eq_some_iff.mp h
  exact .inl ⟨id, by rw [eq]; simp⟩

/-- A step that removes no entry and ends no call of `KillService`. -/
theorem keep (known : Known σ r) (grows : (σ.srv r).Grows (σ'.srv r))
    (services : ∀ entry ∈ σ.services, entry ∈ σ'.services)
    (call : ∀ k, (σ.call k).kills = some r → (σ'.call k).kills = some r) : Known σ' r := by
  rcases known with ⟨id, mem⟩ | ⟨k, kills⟩ | marked
  · exact .inl ⟨id, services _ mem⟩
  · exact .inr (.inl ⟨k, call k kills⟩)
  · exact .inr (.inr (grows.isExiting marked))

/-- A step of call `k` to `pc`, which goes on killing what the call was killing unless that is
marked. -/
theorem setCall {τ : State n} {k : Nat} {pc : CallPc} (known : Known σ r)
    (grows : (σ.srv r).Grows (τ.srv r)) (services : ∀ entry ∈ σ.services, entry ∈ τ.services)
    (calls : τ.call = σ.call)
    (kills : (σ.call k).kills = some r → pc.kills = some r ∨ (τ.srv r).isExiting = true) :
    Known (τ.setCall k pc) r := by
  rcases known with ⟨id, mem⟩ | ⟨k', hk'⟩ | marked
  · exact .inl ⟨id, services _ mem⟩
  · by_cases same : k' = k
    · subst same
      rcases kills hk' with kills | marked
      · exact .inr (.inl ⟨k', by rwa [State.setCall_call_same]⟩)
      · exact .inr (.inr marked)
    · exact .inr (.inl ⟨k', by rwa [State.setCall_call_other _ _ _ same, calls]⟩)
  · exact .inr (.inr (grows.isExiting marked))

/-- `services.erase(id)` removes the entry of the service that the call is killing. -/
theorem erase {k : Nat} {id : UInt32} {r' : ServiceRef} (known : Known σ r)
    (h : σ.call k = .killErase id r') (erases : ∀ r, (id, r) ∈ σ.services → r = r') :
    Known ((σ.eraseService id).setCall k (.killName id r')) r := by
  have killing : ((σ.eraseService id).setCall k (.killName id r')).call k = .killName id r' :=
    State.setCall_call_same ..
  rcases known with ⟨id', mem⟩ | ⟨k', hk'⟩ | marked
  · by_cases same : id' = id
    · subst same
      exact .inr (.inl ⟨k, by rw [killing, erases r mem]; rfl⟩)
    · exact .inl ⟨id', List.mem_filter.mpr ⟨mem, by simpa using same⟩⟩
  · by_cases same : k' = k
    · subst same
      rw [h] at hk'
      exact .inr (.inl ⟨k', by rw [killing]; exact hk'⟩)
    · exact .inr (.inl ⟨k', by rwa [State.setCall_call_other _ _ _ same]⟩)
  · exact .inr (.inr marked)

theorem callStep (known : Known σ r) (born : Born σ) (retiring : Retiring σ r)
    (step : CallStep σ e σ')
    (erases : ∀ k id r r', σ.call k = .killErase id r → (id, r') ∈ σ.services → r' = r) :
    Known σ' r := by
  have grows := (Step.call step).grows born r
  have unrelated : ∀ {k pc}, σ.call k = pc → pc.kills = none →
      ∀ {p : Prop}, (σ.call k).kills = some r → p := by
    intro k pc h none p kills
    rw [h, none] at kills
    contradiction
  cases step with
  | send _ _ h | sendFound h | sendMissed h | sendPush h | sendEnter h | kill _ h | killFound h
  | killMissed h => exact known.setCall grows (fun _ => id) rfl (unrelated h rfl)
  | killErase h => exact known.erase h fun r' => erases _ _ _ r' h
  | killName h =>
    exact known.setCall grows (fun _ => id) rfl fun kills => .inl (by rw [h] at kills; exact kills)
  | killMark h =>
    exact known.setCall grows (fun _ => id) rfl fun kills => .inl (by rw [h] at kills; exact kills)
  | killRead h | killEnter h =>
    refine known.setCall grows (fun _ => id) rfl fun kills => .inr ?_
    rw [h] at kills
    exact grows.isExiting (retiring.marked _ (by rw [h]; exact kills))

theorem step (known : Known σ r) (born : Born σ) (retiring : Retiring σ r) (step : Step σ e σ')
    (erases : ∀ k id r r', σ.call k = .killErase id r → (id, r') ∈ σ.services → r' = r) :
    Known σ' r := by
  have grows := step.grows born r
  have idle : ∀ {k pc}, σ.call k = pc → pc.kills = none →
      ∀ {p : Prop}, (σ.call k).kills = some r → p := by
    intro k pc h none p kills
    rw [h, none] at kills
    contradiction
  cases step with
  | service step =>
    cases step with
    | newService =>
      refine known.keep grows (fun entry mem => ?_) (fun _ => id)
      simp only [State.newService]
      split
      · exact mem
      · exact List.mem_append_left _ mem
    | onInit | onInitReturn | nameService => exact known.keep grows (fun _ => id) fun _ => id
  | call step => exact known.callStep born retiring step erases
  | wake step =>
    cases step with
    | wakeTest h | wakeCount h | wakeLength h | wakeSignal h | wakeNone h =>
      exact known.setCall grows (fun _ => id) rfl (idle h rfl)
  | sleep step => cases step <;> exact known.keep grows (fun _ => id) fun _ => id
  | turn step =>
    cases step with
    | @clearSend w r' msg rest toId err k h _ _ free =>
      refine known.keep grows (fun _ => id) fun k' kills => ?_
      have ne : k' ≠ k := by
        rintro rfl
        exact idle free rfl kills
      simpa [State.modQueue, State.setCall_call_other _ _ _ ne] using kills
    | _ => exact known.keep grows (fun _ => id) fun _ => id
  | main step =>
    cases step with
    | killNext _ free => exact known.setCall grows (fun _ => id) rfl (idle free rfl)
    | _ => exact known.keep grows (fun _ => id) fun _ => id

end Known

/-! ### The kill list -/

/-- The id whose entry a call of `KillService` has not erased yet. -/
def CallPc.erasing : CallPc → Option UInt32
  | killGet id | killErase id _ => some id
  | _ => none

/-- `KillAllServices` has not come to its snapshot, or still has to erase `id`. -/
def Covers (σ : State n) (id : UInt32) : Prop :=
  match σ.main with
  | .waiting => True
  | .killing ids => id ∈ ids
  | .killCall ids k => id ∈ ids ∨ (σ.call k).erasing = some id
  | .wakeAll | .join => False

theorem Covers.keep {id : UInt32} (covers : Covers σ id) (main : σ'.main = σ.main)
    (call : ∀ k, (σ.call k).erasing = some id → (σ'.call k).erasing = some id) :
    Covers σ' id := by
  simp only [Covers, main] at covers ⊢
  cases h : σ.main <;> simp only [h] at covers ⊢
  case killing => exact covers
  case killCall => exact covers.imp_right (call _)

/-- Of the services created before the snapshot the map holds those that `KillAllServices` will
erase, and `IsExit` is set after it. -/
structure KillList (limit : ServiceRef) (σ : State n) : Prop where
  covers : ∀ entry ∈ σ.services, entry.2 < limit → Covers σ entry.1
  exitFlag : σ.exitFlag = true → σ.main = .wakeAll ∨ σ.main = .join

namespace KillList

theorem initial : KillList limit (State.initial n) := by
  constructor <;> simp [State.initial]

/-- A step that adds no entry and leaves the main thread and the calls that erase as they are. -/
theorem keep (l : KillList limit σ) (services : ∀ entry ∈ σ'.services, entry ∈ σ.services)
    (main : σ'.main = σ.main) (flag : σ'.exitFlag = σ.exitFlag)
    (call : ∀ k id, (σ.call k).erasing = some id → (σ'.call k).erasing = some id) :
    KillList limit σ' := by
  refine ⟨fun entry mem old => ?_, by rw [main, flag]; exact l.exitFlag⟩
  exact (l.covers entry (services entry mem) old).keep main fun k => call k _

/-- A step of call `k` to `pc` that ends an erasure only with the entry out of the map. -/
theorem setCall (l : KillList limit σ) {τ : State n} {k : Nat} {pc : CallPc}
    (services : ∀ entry ∈ τ.services, entry ∈ σ.services) (main : τ.main = σ.main)
    (flag : τ.exitFlag = σ.exitFlag) (calls : τ.call = σ.call)
    (erases : ∀ id, (σ.call k).erasing = some id → pc.erasing = some id ∨
      ∀ entry ∈ τ.services, entry.1 ≠ id) :
    KillList limit (τ.setCall k pc) := by
  constructor
  · intro entry mem old
    refine (l.covers entry (services entry mem) old).keep main fun k' erasing => ?_
    by_cases same : k' = k
    · subst same
      rw [State.setCall_call_same]
      exact (erases _ erasing).resolve_right fun gone => gone entry mem rfl
    · rwa [State.setCall_call_other _ _ _ same, calls]
  · rw [State.setCall_main, State.setCall_exitFlag, main, flag]
    exact l.exitFlag

/-- A call that is not erasing may take any step that does not touch the map. -/
theorem setCall_quiet (l : KillList limit σ) {τ : State n} {k : Nat} {pc : CallPc}
    (services : τ.services = σ.services) (main : τ.main = σ.main)
    (flag : τ.exitFlag = σ.exitFlag) (calls : τ.call = σ.call)
    (quiet : (σ.call k).erasing = none) : KillList limit (τ.setCall k pc) :=
  l.setCall (by simp [services]) main flag calls fun id erasing => by
    rw [quiet] at erasing
    contradiction

theorem callStep (l : KillList limit σ) (step : CallStep σ e σ') : KillList limit σ' := by
  cases step with
  | send _ _ h | sendFound h | sendMissed h | sendPush h | sendEnter h | kill _ h | killMark h
  | killRead h | killEnter h => exact l.setCall_quiet rfl rfl rfl rfl (by rw [h]; rfl)
  | killFound h =>
    exact l.setCall (fun _ mem => mem) rfl rfl rfl fun _ erasing =>
      .inl (by rw [h] at erasing; exact erasing)
  | @killMissed k id h missed =>
    refine l.setCall (fun _ mem => mem) rfl rfl rfl fun id' erasing => .inr fun entry mem eq => ?_
    rw [h] at erasing
    cases erasing
    have absent := List.lookup_eq_none_iff.mp missed entry mem
    simp [eq] at absent
  | @killErase k id r h =>
    refine l.setCall (fun _ => List.mem_of_mem_filter) rfl rfl rfl
      fun id' erasing => .inr fun entry mem => ?_
    rw [h] at erasing
    cases erasing
    simpa using (List.mem_filter.mp mem).2
  | killName h => exact l.setCall_quiet rfl rfl rfl rfl (by rw [h]; rfl)

theorem mainStep (l : KillList limit σ) (step : MainStep σ e σ') : KillList limit σ' := by
  have unset : σ.main ≠ .wakeAll → σ.main ≠ .join → σ.exitFlag ≠ true := fun a b flag =>
    (l.exitFlag flag).elim a b
  cases step with
  | @killAll ids h snapshot =>
    refine ⟨fun entry mem _ => ?_, fun flag => absurd flag (unset (by simp [h]) (by simp [h]))⟩
    exact snapshot.mem_iff.mpr (List.mem_map_of_mem mem)
  | @killNext id ids k h idle =>
    refine ⟨fun entry mem old => ?_, fun flag => absurd flag (unset (by simp [h]) (by simp [h]))⟩
    have covers := l.covers entry mem old
    simp only [Covers, h] at covers
    rcases List.mem_cons.mp covers with rfl | later
    · exact .inr (by rw [State.setCall_call_same]; rfl)
    · exact .inl later
  | @killReturn ids k h idle =>
    refine ⟨fun entry mem old => ?_, fun flag => absurd flag (unset (by simp [h]) (by simp [h]))⟩
    have covers := l.covers entry mem old
    simp only [Covers, h, idle] at covers
    exact covers.resolve_right nofun
  | setExit h =>
    refine ⟨fun entry mem old => ?_, fun _ => .inl rfl⟩
    have covers := l.covers entry mem old
    simp only [Covers, h] at covers
    exact absurd covers (List.not_mem_nil)
  | wakeAll h =>
    refine ⟨fun entry mem old => ?_, fun _ => .inr rfl⟩
    have covers := l.covers entry mem old
    simp only [Covers, h] at covers

theorem step (l : KillList limit σ) (step : Step σ e σ')
    (snapshot : σ.main ≠ .waiting → limit ≤ σ.nextRef) : KillList limit σ' := by
  cases step with
  | service step =>
    cases step with
    | newService =>
      refine ⟨fun entry mem old => ?_, l.exitFlag⟩
      by_cases waiting : σ.main = .waiting
      · simp [Covers, State.newService, waiting]
      · simp only [State.newService] at mem
        refine (l.covers entry ?_ old).keep rfl fun _ => id
        split at mem
        · exact mem
        · refine (List.mem_append.mp mem).resolve_right fun new => ?_
          have := snapshot waiting
          rw [List.mem_singleton.mp new] at old
          exact absurd old (Nat.not_lt.mpr this)
    | _ => exact l.keep (fun _ => id) rfl rfl fun _ _ => id
  | call step => exact l.callStep step
  | wake step =>
    cases step with
    | wakeTest h | wakeCount h | wakeLength h | wakeSignal h | wakeNone h =>
      exact l.setCall_quiet rfl rfl rfl rfl (by rw [h]; rfl)
  | sleep step => cases step <;> exact l.keep (fun _ => id) rfl rfl fun _ _ => id
  | turn step =>
    cases step with
    | @clearSend w r msg rest toId err k h _ _ idle =>
      refine l.keep (fun _ => id) rfl rfl fun k' id erasing => ?_
      have ne : k' ≠ k := by
        rintro rfl
        rw [idle] at erasing
        contradiction
      simpa [State.modQueue, State.setCall_call_other _ _ _ ne] using erasing
    | _ => exact l.keep (fun _ => id) rfl rfl fun _ _ => id
  | main step => exact l.mainStep step

end KillList

/-! ### After the last worker -/

/-- The workers come to have all left by a step of the last one. -/
theorem Step.allLeft (step : Step σ e σ') (left : AllLeft σ') :
    AllLeft σ ∨ LastLeaves σ ∧ ∃ w, σ' = σ.setWorker w .left := by
  have moved : ∀ {τ : State n} {w : Fin n} {pc : WorkerPc} {p : Prop},
      AllLeft (τ.setWorker w pc) → pc ≠ .left → p := by
    intro τ w pc p left awake
    have := left w
    rw [State.setWorker_worker_same] at this
    exact absurd this awake
  cases step with
  | service step => cases step <;> exact .inl left
  | call step => cases step <;> exact .inl left
  | wake step =>
    cases step with
    | @wakeSignal k w =>
      have := left w
      simp at this
    | _ => exact .inl left
  | sleep step =>
    cases step with
    | @readExit w h =>
      cases flag : σ.exitFlag with
      | true =>
        refine .inr ⟨⟨flag, w, h, fun w' ne => ?_⟩, w, rfl⟩
        have := left w'
        rwa [State.setWorker_worker_other _ _ _ ne] at this
      | false => exact moved left (by simp [flag])
    | _ => exact moved left (by simp)
  | turn step =>
    cases step with
    | clearDrop => exact .inl left
    | _ => exact moved left (by simp)
  | main step =>
    cases step with
    | wakeAll =>
      refine .inl fun w => ?_
      have := left w
      simp only [State.broadcast] at this
      split at this
      · contradiction
      · exact this
    | _ => exact .inl left

/-- Once all workers have left, no service is in the map, in the global queue or being killed. -/
structure Emptied (σ : State n) : Prop where
  services : σ.services = []
  queue : σ.globalQueue = []
  kills : ∀ k r, (σ.call k).kills ≠ some r

/-- How far a run that drains in time has come. -/
structure Draining (limit : ServiceRef) (σ : State n) : Prop where
  list : KillList limit σ
  known : ∀ k r, (σ.call k).target = some r → Known σ r
  emptied : AllLeft σ → Emptied σ

namespace Draining

theorem initial : Draining limit (State.initial n) where
  list := .initial
  known := by simp [State.initial, CallPc.target]
  emptied _ := ⟨rfl, rfl, by simp [State.initial, CallPc.kills]⟩

/-- A service that a call or the map still knows has exited, once all workers have left. -/
theorem exited (emptied : Emptied σ) (left : AllLeft σ) (retiring : Retiring σ r)
    (known : Known σ r) : (σ.srv r).exited = true := by
  have marked : (σ.srv r).isExiting = true := by
    rcases known with ⟨id, mem⟩ | ⟨k, kills⟩ | marked
    · rw [emptied.services] at mem
      contradiction
    · exact absurd kills (emptied.kills k r)
    · exact marked
  by_contra live
  rcases retiring.reaches marked (by simpa using live) with ⟨k, schedules⟩ | mem | ⟨w, untested⟩
  · exact emptied.kills k r (CallPc.kills_of_schedules schedules)
  · rw [emptied.queue] at mem
    contradiction
  · rw [left w] at untested
    contradiction

/-- The last worker leaves with everything done. -/
theorem last (d : Draining limit σ) (h : LastLeaves σ) (inTime : DrainsInTime limit σ e)
    (fromLua : CalledFromLua σ e) : Emptied σ := by
  obtain ⟨flag, w, here, others⟩ := h
  have main := d.list.exitFlag flag
  refine ⟨?_, inTime.queue ⟨flag, w, here, others⟩, fun k r kills => ?_⟩
  · refine List.eq_nil_iff_forall_not_mem.mpr fun entry mem => ?_
    have covers := d.list.covers entry mem (inTime.later ⟨flag, w, here, others⟩ entry mem)
    rcases main with main | main <;> simp [Covers, main] at covers
  · rcases fromLua.kill k r kills with waiting | ⟨ids, killing⟩ | ⟨w', r', executing⟩
    · rcases main with main | main <;> simp [main] at waiting
    · rcases main with main | main <;> simp [main] at killing
    · by_cases same : w' = w
      · subst same
        rw [here] at executing
        contradiction
      · rw [others w' same] at executing
        contradiction

/-- A step of call `k` to `pc` after the last worker. -/
theorem setCall (emptied : Emptied σ) {k : Nat} {pc : CallPc} (kills : ∀ r, pc.kills ≠ some r) :
    Emptied (σ.setCall k pc) := by
  refine ⟨emptied.services, emptied.queue, fun k' r hk' => ?_⟩
  by_cases same : k' = k
  · subst same
    rw [State.setCall_call_same] at hk'
    exact kills r hk'
  · rw [State.setCall_call_other _ _ _ same] at hk'
    exact emptied.kills k' r hk'

theorem callStep (emptied : Emptied σ) (entered : ∀ k r, σ.call k = .sendEnter r →
      (σ.srv r).mq.inGlobal = true) (step : CallStep σ e σ') : Emptied σ' := by
  have unkilled : ∀ {k r pc} {p : Prop}, σ.call k = pc → pc.kills = some r → p := by
    intro k r pc p h kills
    exact absurd (h ▸ kills) (emptied.kills k r)
  cases step with
  | send | sendFound | sendMissed | kill | killMissed => exact setCall emptied (by simp [CallPc.kills])
  | sendPush =>
    refine setCall (σ := σ.modQueue _ _) ⟨?_, ?_, ?_⟩ (by simp [CallPc.kills])
    · exact emptied.services
    · exact emptied.queue
    · exact emptied.kills
  | @sendEnter k r h =>
    rw [State.tryEnterGlobal_inside (entered k r h)]
    refine setCall emptied fun r' => ?_
    unfold State.afterEnter
    split <;> simp [CallPc.kills]
  | killFound _ found =>
    rw [State.getService, emptied.services] at found
    contradiction
  | killErase h | killName h | killMark h | killRead h | killEnter h => exact unkilled h rfl

theorem stays (d : Draining limit σ) (left : AllLeft σ) (token : ∀ r, Token σ r)
    (retiring : ∀ r, Retiring σ r) (step : Step σ e σ') (fromLua : CalledFromLua σ e) :
    Emptied σ' := by
  have emptied := d.emptied left
  have gone : ∀ {w pc} {p : Prop}, σ.worker w = pc → pc ≠ .left → p := by
    intro w pc p h awake
    exact absurd (h.symm.trans (left w)) awake
  cases step with
  | service step =>
    cases step with
    | newService =>
      obtain ⟨w, awake⟩ := fromLua.create _ rfl
      exact absurd (left w) awake
    | onInit | onInitReturn | nameService =>
      exact ⟨emptied.services, emptied.queue, emptied.kills⟩
  | call step =>
    refine callStep emptied (fun k r h => ?_) step
    have known := d.known k r (by rw [h]; rfl)
    exact ((token r).dead (exited emptied left (retiring r) known)).2.2
  | wake step =>
    cases step with
    | wakeTest | wakeLength =>
      refine setCall emptied fun r => ?_
      split <;> simp [CallPc.kills]
    | wakeCount | wakeNone => exact setCall emptied (by simp [CallPc.kills])
    | wakeSignal _ waits => exact gone waits (by simp)
  | sleep step =>
    cases step with
    | take h | takeNone h | readExit h | lockSleep h | condWait h | spurious h | resume h =>
      exact gone h (by simp)
  | turn step =>
    cases step with
    | readLength h | processDone h | processPop h | processNone h | readOverload h | onMsgReturn h
    | testLive h | testExiting h | testExited h | finish h | onExitReturn h | clearDrop h
    | clearSend h | clearResume h | clearDone h => exact gone h (by simp)
  | main step =>
    cases step with
    | @killNext id ids k h =>
      exact setCall (σ := { σ with main := .killCall ids k })
        ⟨emptied.services, emptied.queue, emptied.kills⟩ (by simp [CallPc.kills])
    | killAll | killReturn | setExit | wakeAll =>
      exact ⟨emptied.services, emptied.queue, emptied.kills⟩

theorem step (d : Draining limit σ) (born : Born σ) (token : ∀ r, Token σ r)
    (retiring : ∀ r, Retiring σ r) (step : Step σ e σ') (inTime : DrainsInTime limit σ e)
    (fromLua : CalledFromLua σ e) : Draining limit σ' := by
  refine ⟨d.list.step step inTime.snapshot, fun k r target => ?_, fun left => ?_⟩
  · have known : Known σ r := by
      rcases step.target_of target with held | ⟨id, found⟩
      · exact d.known k r held
      · exact .of_found found
    exact known.step born (retiring r) step inTime.erases
  · rcases step.allLeft left with before | ⟨last, w, rfl⟩
    · exact d.stays before token retiring step fromLua
    · have emptied := d.last last inTime fromLua
      exact ⟨emptied.services, emptied.queue, emptied.kills⟩

theorem run (run : ((node n).restrict fun σ e => CalledFromLua σ e ∧ DrainsInTime limit σ e).Run σ tr) :
    Draining limit σ := by
  refine run.invariant (P := fun σ _ => Draining limit σ) (fun _ h => h ▸ initial) ?_
  intro σ tr e σ' run d step
  have settled := run.mono fun _ _ h => h.2.reads
  exact d.step (Born.run run.of_restrict) (Token.run run.of_restrict) (Retiring.run settled) step.1
    step.2.2 step.2.1

end Draining

/-- When every worker has left, every service that was ever in the services map has gone through its
exit path exactly once, in every run in which the last worker leaves an empty global queue and no
service of a handler that started after the snapshot. -/
theorem exitedOnce_of_drainsInTime {σ₀ : State n} {before later : List (Event n)} {id : UInt32}
    (start : ((node n).restrict fun σ e => CalledFromLua σ e ∧ DrainsInTime limit σ e).Run σ₀ before)
    (inserted : (id, r) ∈ σ₀.services)
    (rest : (((node n).restrict fun σ e => CalledFromLua σ e ∧ DrainsInTime limit σ e).after σ₀).Run
      σ later)
    (left : AllLeft σ) : ExitedOnce (before ++ later) r := by
  have settled : ∀ {σ : State n} {tr : List (Event n)},
      ((node n).restrict fun σ e => CalledFromLua σ e ∧ DrainsInTime limit σ e).Run σ tr →
      ((node n).restrict ReadsSettled).Run σ tr := fun run => run.mono fun _ _ h => h.2.reads
  have known : Known σ r := by
    refine rest.invariant (P := fun σ _ => Known σ r) ?_ ?_
    · rintro σ rfl
      exact .inl ⟨id, inserted⟩
    · intro σ tr e σ' rest known step
      have run := start.append rest
      exact known.step (Born.run run.of_restrict) (Retiring.run (settled run) r) step.1
        step.2.2.erases
  have run := start.append rest
  have exited := Draining.exited ((Draining.run run).emptied left) left
    (Retiring.run (settled run) r) known
  have paths := ExitPaths.run run.of_restrict r
  have outside : σ.leavers r = 0 := tally_eq_zero.mpr fun w => by
    rw [left w]
    simp [WorkerPc.leads, WorkerPc.exiting]
  have once : exits r (before ++ later) = 1 := by rw [paths.exits, exited]; rfl
  exact ⟨once, by rw [← once, ← paths.clears, outside, Nat.add_zero]⟩

/-- An idle service is killed by `KillAllServices`, and its exit path runs before `SetExit`. -/
theorem exitedOnce_idle : ∃ (σ₀ σ : State 1) (before later : List (Event 1)),
    ((node 1).restrict fun σ e => CalledFromLua σ e ∧ DrainsInTime 1 σ e).Run σ₀ before ∧
      (1, 0) ∈ σ₀.services ∧
      (((node 1).restrict fun σ e => CalledFromLua σ e ∧ DrainsInTime 1 σ e).after σ₀).Run σ later ∧
      AllLeft σ ∧ ExitedOnce (before ++ later) 0 := by
  have early : ∀ {σ : State 1} {e : Event 1}, σ.main = .waiting → σ.exitFlag = false →
      (∀ k, σ.call k = .idle) → (∀ k r, e ≠ .readInGlobal k r) → σ.worker 0 = .popGlobal →
      CalledFromLua σ e ∧ DrainsInTime 1 σ e := by
    intro σ e waiting unset idle noRead pops
    have stays : ¬ LastLeaves σ := fun last => by simp [unset, LastLeaves] at last
    refine ⟨⟨fun _ _ => ⟨0, by simp [pops]⟩, fun _ _ _ => .inl waiting⟩, ?_⟩
    refine ⟨fun k r eq => absurd eq (noRead k r), fun k id r r' h => ?_, absurd waiting,
      fun last => absurd last stays, fun last => absurd last stays⟩
    rw [idle k] at h
    contradiction
  have late : ∀ {σ : State 1} {e : Event 1}, σ.nextRef = 1 → (∀ r, e ≠ .created r) →
      (∀ k r, e = .readInGlobal k r → r = 0) → σ.worker 0 ≠ .finish 0 →
      (∀ k, σ.call (k + 1) = .idle) →
      ((σ.call 0).kills = none ∨ (∃ ids, σ.main = .killCall ids 0) ∧
        ∀ id r, σ.call 0 = .killErase id r → r = 0) →
      σ.services = [(1, 0)] ∨ σ.services = [] → (σ.exitFlag = true → σ.globalQueue = []) →
      CalledFromLua σ e ∧ DrainsInTime 1 σ e := by
    intro σ e next noCreate reads finish idle kills services queue
    have old : ∀ entry ∈ σ.services, entry.2 = 0 := by
      rcases services with one | none
      · simp [one]
      · simp [none]
    refine ⟨⟨fun r eq => absurd eq (noCreate r), fun k r h => ?_⟩, fun k r eq w => ?_,
      fun k id r r' h mem => ?_, fun _ => next.ge, fun last => queue last.1, fun _ entry mem => ?_⟩
    · cases k with
      | zero => exact .inr (.inl (kills.resolve_left (by simp [h])).1)
      | succ k => simp [idle k, CallPc.kills] at h
    · rw [Subsingleton.elim w 0, reads k r eq]
      exact finish
    · cases k with
      | zero => rw [(kills.resolve_left (by simp [h, CallPc.kills])).2 id r h]; exact old _ mem
      | succ k => simp [idle k] at h
    · simp [old entry mem]
  have h0 : ((node 1).restrict fun σ e => CalledFromLua σ e ∧ DrainsInTime 1 σ e).Run _ _ := .init rfl
  have h1 := h0.step ⟨.service (.newService _), early rfl rfl (fun _ => rfl) (by simp) rfl⟩
  have g0 := h1.here
  have g1 := g0.step ⟨.service (.onInit (r := 0) rfl), early rfl rfl (fun _ => rfl) (by simp) rfl⟩
  have g2 := g1.step ⟨.service (.onInitReturn (r := 0) rfl), early rfl rfl (fun _ => rfl) (by simp) rfl⟩
  have g3 := g2.step ⟨.main (.killAll rfl (.refl [1])),
    early rfl rfl (fun _ => rfl) (by simp) rfl⟩
  have g4 := g3.step ⟨.main (.killNext (k := 0) rfl rfl),
    late rfl (by simp) (by simp) (by decide) (fun _ => rfl) (.inl rfl) (.inl rfl) (by decide)⟩
  have killing : ∀ {σ : State 1} {e : Event 1}, σ.nextRef = 1 → (∀ r, e ≠ .created r) →
      (∀ k r, e = .readInGlobal k r → r = 0) → σ.worker 0 = .popGlobal →
      (∀ k, σ.call (k + 1) = .idle) → σ.main = .killCall [] 0 →
      (∀ id r, σ.call 0 = .killErase id r → r = 0) →
      σ.services = [(1, 0)] ∨ σ.services = [] → σ.exitFlag = false →
      CalledFromLua σ e ∧ DrainsInTime 1 σ e := fun next noCreate reads pops idle main erases
      services unset => late next noCreate reads (by simp [pops]) idle
        (.inr ⟨⟨_, main⟩, erases⟩) services (by simp [unset])
  have g5 := g4.step ⟨.call (.killFound (k := 0) (r := 0) rfl rfl),
    killing rfl (by simp) (by simp) rfl (fun _ => rfl) rfl (by rintro _ _ ⟨⟩) (.inl rfl) rfl⟩
  have g6 := g5.step ⟨.call (.killErase (k := 0) rfl),
    killing rfl (by simp) (by simp) rfl (fun _ => rfl) rfl (by rintro id r ⟨⟩; rfl) (.inl rfl) rfl⟩
  have g7 := g6.step ⟨.call (.killName (k := 0) rfl),
    killing rfl (by simp) (by simp) rfl (fun _ => rfl) rfl (by rintro _ _ ⟨⟩) (.inr rfl) rfl⟩
  have g8 := g7.step ⟨.call (.killMark (k := 0) rfl),
    killing rfl (by simp) (by simp) rfl (fun _ => rfl) rfl (by rintro _ _ ⟨⟩) (.inr rfl) rfl⟩
  have g9 := g8.step ⟨.call (.killRead (k := 0) (r := 0) rfl),
    killing rfl (by simp) (by rintro k r ⟨⟩; rfl) rfl (fun _ => rfl) rfl (by rintro _ _ ⟨⟩) (.inr rfl) rfl⟩
  have g10 := g9.step ⟨.call (.killEnter (k := 0) (r := 0) rfl),
    killing rfl (by simp) (by simp) rfl (fun _ => rfl) rfl (by rintro _ _ ⟨⟩) (.inr rfl) rfl⟩
  have g11 := g10.step ⟨.wake (.wakeTest (k := 0) rfl),
    killing rfl (by simp) (by simp) rfl (fun _ => rfl) rfl (by rintro _ _ ⟨⟩) (.inr rfl) rfl⟩
  have ends : ∀ {σ : State 1} {e : Event 1}, σ.nextRef = 1 → (∀ r, e ≠ .created r) →
      (∀ k r, e ≠ .readInGlobal k r) → σ.worker 0 ≠ .finish 0 → (∀ k, σ.call k = .idle) →
      σ.services = [] → (σ.exitFlag = true → σ.globalQueue = []) →
      CalledFromLua σ e ∧ DrainsInTime 1 σ e := fun next noCreate noRead finish idle services
      queue => late next noCreate (fun k r eq => absurd eq (noRead k r)) finish
        (fun k => idle (k + 1)) (.inl (by rw [idle 0]; rfl)) (.inr services) queue
  have g12 := g11.step ⟨.main (.killReturn (k := 0) rfl rfl),
    ends rfl (by simp) (by simp) (by decide) (by rintro (_ | k) <;> rfl) rfl (by decide)⟩
  have g13 := g12.step ⟨.sleep (.take (w := 0) (r := 0) rfl rfl),
    ends rfl (by simp) (by simp) (by decide) (by rintro (_ | k) <;> rfl) rfl (by decide)⟩
  have g14 := g13.step ⟨.turn (.readLength (w := 0) rfl rfl),
    ends rfl (by simp) (by simp) (by decide) (by rintro (_ | k) <;> rfl) rfl (by decide)⟩
  have g15 := g14.step ⟨.turn (.processNone (w := 0) (i := 0) rfl rfl rfl),
    ends rfl (by simp) (by simp) (by decide) (by rintro (_ | k) <;> rfl) rfl (by decide)⟩
  have g16 := g15.step ⟨.turn (.testExiting (w := 0) rfl rfl rfl),
    ends rfl (by simp) (by simp) (by decide) (by rintro (_ | k) <;> rfl) rfl (by decide)⟩
  have g17 := g16.step ⟨.turn (.onExitReturn (w := 0) rfl rfl),
    ends rfl (by simp) (by simp) (by decide) (by rintro (_ | k) <;> rfl) rfl (by decide)⟩
  have g18 := g17.step ⟨.turn (.clearDone (w := 0) rfl rfl),
    ends rfl (by simp) (by simp) (by decide) (by rintro (_ | k) <;> rfl) rfl (by decide)⟩
  have g19 := g18.step ⟨.main (.setExit rfl),
    ends rfl (by simp) (by simp) (by decide) (by rintro (_ | k) <;> rfl) rfl (by decide)⟩
  have g20 := g19.step ⟨.sleep (.takeNone (w := 0) rfl rfl),
    ends rfl (by simp) (by simp) (by decide) (by rintro (_ | k) <;> rfl) rfl (fun _ => rfl)⟩
  have g21 := g20.step ⟨.sleep (.readExit (w := 0) rfl),
    ends rfl (by simp) (by simp) (by decide) (by rintro (_ | k) <;> rfl) rfl (fun _ => rfl)⟩
  refine ⟨_, _, _, _, h1, .head _, g21, ?left, exitedOnce_of_drainsInTime h1 (.head _) g21 ?left⟩
  intro w
  rw [Subsingleton.elim w 0]
  rfl

/-- The worker finds the global queue empty, `KillAllServices` puts the service there, and the
worker reads `IsExit` as true: it leaves, and `OnExit` never runs. -/
theorem not_exitedOnce_leaves : ¬ ∀ (σ₀ σ : State 1) (before later : List (Event 1)) id r,
    ((node 1).restrict CalledFromLua).Run σ₀ before → (id, r) ∈ σ₀.services →
      (((node 1).restrict CalledFromLua).after σ₀).Run σ later → AllLeft σ →
      ExitedOnce (before ++ later) r := by
  intro claim
  have waits : ∀ {σ : State 1} {e : Event 1}, σ.main = .waiting → σ.worker 0 ≠ .left →
      CalledFromLua σ e := fun waiting stays => ⟨fun _ _ => ⟨0, stays⟩, fun _ _ _ => .inl waiting⟩
  have kills : ∀ {σ : State 1} {e : Event 1} {ids : List UInt32}, (∀ r, e ≠ .created r) →
      σ.main = .killCall ids 0 → (∀ k, σ.call (k + 1) = .idle) → CalledFromLua σ e := by
    intro σ e ids noCreate main idle
    refine ⟨fun r eq => absurd eq (noCreate r), fun k r h => ?_⟩
    cases k with
    | zero => exact .inr (.inl ⟨ids, main⟩)
    | succ k =>
      rw [idle k] at h
      contradiction
  have ends : ∀ {σ : State 1}, (∀ k, σ.call k = .idle) → CalledFromLua σ .tau := fun idle =>
    ⟨by simp, fun k r h => absurd h (CallPc.not_kills_of_idle idle k)⟩
  have h0 : ((node 1).restrict CalledFromLua).Run _ _ := .init rfl
  have h1 := h0.step ⟨.service (.newService _), waits rfl (by simp [State.initial])⟩
  have g0 := h1.here
  have g1 := g0.step ⟨.service (.onInit (r := 0) rfl), waits rfl (by decide)⟩
  have g2 := g1.step ⟨.service (.onInitReturn (r := 0) rfl), waits rfl (by decide)⟩
  have g3 := g2.step ⟨.sleep (.takeNone (w := 0) rfl rfl), waits rfl (by decide)⟩
  have g4 := g3.step ⟨.main (.killAll rfl (.refl [1])), waits rfl (by decide)⟩
  have g5 := g4.step ⟨.main (.killNext (k := 0) rfl rfl), ends (fun _ => rfl)⟩
  have g6 := g5.step ⟨.call (.killFound (k := 0) (r := 0) rfl rfl), kills (by simp) rfl (fun _ => rfl)⟩
  have g7 := g6.step ⟨.call (.killErase (k := 0) rfl), kills (by simp) rfl (fun _ => rfl)⟩
  have g8 := g7.step ⟨.call (.killName (k := 0) rfl), kills (by simp) rfl (fun _ => rfl)⟩
  have g9 := g8.step ⟨.call (.killMark (k := 0) rfl), kills (by simp) rfl (fun _ => rfl)⟩
  have g10 := g9.step ⟨.call (.killRead (k := 0) (r := 0) rfl), kills (by simp) rfl (fun _ => rfl)⟩
  have g11 := g10.step ⟨.call (.killEnter (k := 0) (r := 0) rfl), kills (by simp) rfl (fun _ => rfl)⟩
  have g12 := g11.step ⟨.wake (.wakeTest (k := 0) rfl), kills (by simp) rfl (fun _ => rfl)⟩
  have g13 := g12.step ⟨.main (.killReturn (k := 0) rfl rfl), ends (by rintro (_ | k) <;> rfl)⟩
  have g14 := g13.step ⟨.main (.setExit rfl), ends (by rintro (_ | k) <;> rfl)⟩
  have g15 := g14.step ⟨.sleep (.readExit (w := 0) rfl), ends (by rintro (_ | k) <;> rfl)⟩
  have once := claim _ _ _ _ 1 0 h1 (.head _) g15 fun w => by
    rw [Subsingleton.elim w 0]
    rfl
  exact absurd once.1 (by decide)

end Starnet.Core
