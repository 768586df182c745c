import Starnet.Core.Born

/-! The services map. `KillService` erases a service before it marks it, and a service enters the
map only when it is created, so a service that is being retired cannot be found any more. -/

namespace Starnet.Core

open Transition

variable {n : Nat} {σ σ' : State n} {tr : List (Event n)} {e : Event n} {r : ServiceRef}

/-- Service `r` is in the map. -/
def State.Listed (σ : State n) (r : ServiceRef) : Prop := ∃ entry ∈ σ.services, entry.2 = r

/-- The service that a call of `KillService` has erased and is about to mark. -/
def CallPc.erased : CallPc → Option ServiceRef
  | killName _ srv | killMark srv => some srv
  | _ => none

/-- Every entry of the map has the id of its service, `KillService` erases the id of the service
that it found, and a service that it erased or marked is not in the map. -/
structure Registry (σ : State n) : Prop where
  ids : ∀ entry ∈ σ.services, (σ.srv entry.2).id = entry.1
  erase : ∀ k id r, σ.call k = .killErase id r → (σ.srv r).id = id
  erased : ∀ k r, (σ.call k).erased = some r → ¬ σ.Listed r
  marked : ∀ r, (σ.srv r).isExiting = true → ¬ σ.Listed r

namespace Registry

theorem initial : Registry (State.initial n) := by
  constructor <;> simp [State.initial, CallPc.erased, State.Listed]

/-- A step that keeps the map, the ids and the marks, and no call comes closer to a mark. -/
theorem keep (reg : Registry σ) (services : σ'.services = σ.services)
    (id : ∀ r, (σ'.srv r).id = (σ.srv r).id)
    (isExiting : ∀ r, (σ'.srv r).isExiting = (σ.srv r).isExiting)
    (erase : ∀ k id r, σ'.call k = .killErase id r → σ.call k = .killErase id r)
    (erased : ∀ k r, (σ'.call k).erased = some r → (σ.call k).erased = some r) : Registry σ' := by
  constructor
  · rw [services]
    simpa only [id] using reg.ids
  · intro k id' r h
    rw [id]
    exact reg.erase k id' r (erase k id' r h)
  · intro k r h
    rw [State.Listed, services]
    exact reg.erased k r (erased k r h)
  · intro r h
    rw [State.Listed, services]
    exact reg.marked r (by rwa [← isExiting])

theorem keep_setCall (reg : Registry σ) {k : Nat} {pc : CallPc}
    (erase : ∀ id r, pc = .killErase id r → σ.call k = .killErase id r)
    (erased : ∀ r, pc.erased = some r → (σ.call k).erased = some r) :
    Registry (σ.setCall k pc) := by
  refine reg.keep rfl (fun _ => rfl) (fun _ => rfl) (fun k' id r h => ?_) (fun k' r h => ?_)
  · by_cases same : k' = k
    · subst same
      exact erase id r (by rwa [State.setCall_call_same] at h)
    · rwa [State.setCall_call_other _ _ _ same] at h
  · by_cases same : k' = k
    · subst same
      exact erased r (by rwa [State.setCall_call_same] at h)
    · rwa [State.setCall_call_other _ _ _ same] at h

/-- A call goes on without coming closer to a mark. -/
theorem setCall (reg : Registry σ) (k : Nat) {pc : CallPc} (h : pc.erased = none)
    (away : ∀ id r, pc ≠ .killErase id r) : Registry (σ.setCall k pc) :=
  reg.keep_setCall (fun id r eq => absurd eq (away id r)) (fun r eq => by simp [h] at eq)

/-- A step that replaces a service and keeps its id and its mark. -/
theorem keep_at (reg : Registry σ) (r : ServiceRef) {s : Service}
    (services : σ'.services = σ.services) (call : σ'.call = σ.call)
    (srv : σ'.srv = Function.update σ.srv r s) (id : s.id = (σ.srv r).id)
    (isExiting : s.isExiting = (σ.srv r).isExiting) : Registry σ' := by
  refine reg.keep services ?_ ?_ (by simp [call]) (by simp [call])
  · rw [srv]
    exact State.modService_keeps σ r (g := fun s => s.id) (f := fun _ => s) id
  · rw [srv]
    exact State.modService_keeps σ r (g := fun s => s.isExiting) (f := fun _ => s) isExiting

theorem found (reg : Registry σ) {id : UInt32} (h : σ.getService id = some r) :
    (σ.srv r).id = id ∧ σ.Listed r := by
  obtain ⟨before, after, eq, -⟩ := List.lookup_eq_some_iff.mp h
  have mem : (id, r) ∈ σ.services := by simp [eq]
  exact ⟨reg.ids _ mem, _, mem, rfl⟩

theorem newService (reg : Registry σ) (born : Born σ) : Registry σ.newService := by
  have entries : ∀ entry ∈ σ.newService.services,
      entry ∈ σ.services ∨ entry = (σ.maxId + 1, σ.nextRef) := by
    intro entry mem
    simp only [State.newService] at mem
    split at mem
    · exact .inl mem
    · simpa using mem
  have old : ∀ r, r < σ.nextRef → σ.newService.srv r = σ.srv r := by
    intro r lt
    simp only [State.newService]
    rw [Function.update_of_ne (Nat.ne_of_lt lt)]
  have listed : ∀ r, r < σ.nextRef → σ.newService.Listed r → σ.Listed r := by
    rintro r lt ⟨entry, mem, rfl⟩
    rcases entries entry mem with mem | rfl
    · exact ⟨entry, mem, rfl⟩
    · exact absurd lt (Nat.lt_irrefl _)
  have target : ∀ {k : Nat} {r}, (σ.call k).target = some r → r < σ.nextRef :=
    fun h => born.call _ _ h
  constructor
  · intro entry mem
    rcases entries entry mem with mem | rfl
    · rw [old _ (born.services entry mem)]
      exact reg.ids entry mem
    · simp [State.newService]
  · intro k id r h
    have at' : σ.call k = .killErase id r := h
    rw [old r (target (by rw [at']; rfl))]
    exact reg.erase k id r h
  · intro k r h mem
    have lt : r < σ.nextRef := by
      have before : (σ.call k).erased = some r := h
      refine target (k := k) ?_
      cases pc : σ.call k <;> rw [pc] at before <;> first | exact before | cases before
    exact reg.erased k r h (listed r lt mem)
  · intro r h mem
    have lt : r < σ.nextRef := by
      by_contra ge
      rcases Nat.eq_or_lt_of_not_lt ge with rfl | gt
      · simp [State.newService] at h
      · simp only [State.newService] at h
        rw [Function.update_of_ne (Nat.ne_of_gt gt), born.srv r gt.le] at h
        contradiction
    rw [old r lt] at h
    exact reg.marked r h (listed r lt mem)

/-- `services.erase(id)` removes the service that the call found. -/
theorem killErase (reg : Registry σ) {k : Nat} {id : UInt32} (h : σ.call k = .killErase id r) :
    Registry ((σ.eraseService id).setCall k (.killName id r)) := by
  have listed : ∀ r', (σ.eraseService id).Listed r' → σ.Listed r' := by
    rintro r' ⟨entry, mem, rfl⟩
    exact ⟨entry, List.mem_of_mem_filter mem, rfl⟩
  have gone : ¬ (σ.eraseService id).Listed r := by
    rintro ⟨entry, mem, rfl⟩
    obtain ⟨mem, other⟩ := List.mem_filter.mp mem
    have same := (reg.ids entry mem).symm.trans (reg.erase k id entry.2 h)
    simp [same] at other
  constructor
  · exact fun entry mem => reg.ids entry (List.mem_of_mem_filter mem)
  · intro k' id' r' h'
    by_cases same : k' = k
    · subst same
      rw [State.setCall_call_same] at h'
      cases h'
    · rw [State.setCall_call_other _ _ _ same] at h'
      exact reg.erase k' id' r' h'
  · intro k' r' h' mem
    by_cases same : k' = k
    · subst same
      rw [State.setCall_call_same] at h'
      cases h'
      exact gone mem
    · rw [State.setCall_call_other _ _ _ same] at h'
      exact reg.erased k' r' h' (listed r' mem)
  · exact fun r' h' mem => reg.marked r' h' (listed r' mem)

theorem killMark (reg : Registry σ) {k : Nat} (h : σ.call k = .killMark r) :
    Registry ((σ.modService r fun s => { s with isExiting := true }).setCall k (.killRead r)) := by
  have gone : ¬ σ.Listed r := reg.erased k r (by rw [h]; rfl)
  refine Registry.setCall ?_ k rfl (by simp)
  constructor
  · intro entry mem
    rw [State.modService_keeps σ r (g := fun s => s.id) rfl]
    exact reg.ids entry mem
  · intro k' id' r' h'
    rw [State.modService_keeps σ r (g := fun s => s.id) rfl]
    exact reg.erase k' id' r' h'
  · exact reg.erased
  · intro r' h' mem
    by_cases same : r' = r
    · subst same
      exact gone mem
    · rw [State.modService_srv_other _ _ _ same] at h'
      exact reg.marked r' h' mem

theorem callStep (reg : Registry σ) (step : CallStep σ e σ') : Registry σ' := by
  cases step with
  | send | sendFound | sendMissed | kill | killMissed => exact reg.setCall _ rfl (by simp)
  | @killFound k id r h found =>
    have id_eq := (reg.found found).1
    refine ⟨reg.ids, fun k' id' r' h' => ?_, fun k' r' h' => ?_, reg.marked⟩
    · by_cases same : k' = k
      · subst same
        rw [State.setCall_call_same] at h'
        cases h'
        exact id_eq
      · rw [State.setCall_call_other _ _ _ same] at h'
        exact reg.erase k' id' r' h'
    · by_cases same : k' = k
      · subst same
        rw [State.setCall_call_same] at h'
        cases h'
      · rw [State.setCall_call_other _ _ _ same] at h'
        exact reg.erased k' r' h'
  | @sendPush k r' msg =>
    have kept : Registry (σ.modQueue r' fun mq => mq.push msg) := reg.keep_at r' rfl rfl rfl rfl rfl
    exact kept.setCall k rfl (by simp)
  | @sendEnter k r' | @killEnter k r' =>
    have kept : Registry (σ.tryEnterGlobal r') := reg.keep_at r' rfl rfl rfl rfl rfl
    refine kept.setCall k ?_ ?_ <;> unfold State.afterEnter <;> split <;> simp [CallPc.erased]
  | killErase h => exact reg.killErase h
  | @killName k id r h =>
    have named : Registry (σ.removeName id) := ⟨reg.ids, reg.erase, reg.erased, reg.marked⟩
    refine named.keep_setCall (by simp) fun r' eq => ?_
    show (σ.call k).erased = some r'
    rw [h]
    exact eq
  | killMark h => exact reg.killMark h
  | killRead => refine reg.setCall _ ?_ ?_ <;> split <;> simp [CallPc.erased]

theorem step (reg : Registry σ) (born : Born σ) (step : Step σ e σ') : Registry σ' := by
  cases step with
  | service step =>
    cases step with
    | newService => exact reg.newService born
    | onInit | onInitReturn => exact reg.keep_at _ rfl rfl rfl rfl rfl
    | nameService => exact ⟨reg.ids, reg.erase, reg.erased, reg.marked⟩
  | call step => exact reg.callStep step
  | wake step =>
    cases step with
    | wakeTest | wakeLength => refine reg.setCall _ ?_ ?_ <;> split <;> simp [CallPc.erased]
    | wakeCount | wakeNone => exact reg.setCall _ rfl (by simp)
    | @wakeSignal k w =>
      have kept : Registry (σ.setWorker w .woken) := ⟨reg.ids, reg.erase, reg.erased, reg.marked⟩
      exact kept.setCall k rfl (by simp)
  | sleep step => cases step <;> exact ⟨reg.ids, reg.erase, reg.erased, reg.marked⟩
  | turn step =>
    cases step with
    | readLength | processDone | onMsgReturn | testLive | testExited | clearResume =>
      exact ⟨reg.ids, reg.erase, reg.erased, reg.marked⟩
    | processPop | processNone | readOverload | testExiting | finish | onExitReturn | clearDrop
    | clearDone => exact reg.keep_at _ rfl rfl rfl rfl rfl
    | @clearSend w r' msg rest toId err k =>
      have dropped : Registry (σ.modQueue r' fun mq => mq.dropFront) :=
        reg.keep_at r' rfl rfl rfl rfl rfl
      have kept : Registry ((σ.modQueue r' fun mq => mq.dropFront).setCall k (.sendGet toId err)) :=
        dropped.setCall k rfl (by simp)
      exact ⟨kept.ids, kept.erase, kept.erased, kept.marked⟩
  | main step =>
    cases step with
    | killAll | killReturn | setExit | wakeAll =>
      exact ⟨reg.ids, reg.erase, reg.erased, reg.marked⟩
    | @killNext id ids k =>
      have kept : Registry { σ with main := .killCall ids k } :=
        ⟨reg.ids, reg.erase, reg.erased, reg.marked⟩
      exact kept.setCall k rfl (by simp)

theorem run (run : (node n).Run σ tr) : Registry σ :=
  run.invariant (P := fun σ _ => Registry σ) (fun _ h => h ▸ initial)
    fun _ _ _ _ run reg step => reg.step (Born.run run) step

end Registry

/-! ### Messages on their way -/

/-- The message of a call of `Send` to the service with id `id`, which is `r`, before its `Push`. -/
def CallPc.underway (id : UInt32) (r : ServiceRef) : CallPc → List BaseMsg
  | sendGet toId msg => if toId = id then [msg] else []
  | sendPush srv msg => if srv = r then [msg] else []
  | _ => []

/-- The message that an event pushes to `r` in call `k`. -/
def Event.pushedIn (k : Nat) (r : ServiceRef) : Event n → List BaseMsg
  | push k' r' msg => if k' = k ∧ r' = r then [msg] else []
  | _ => []

/-- An entry that the map has after `erase` was there before. -/
theorem lookup_of_erased {services : List (UInt32 × ServiceRef)} {id id' : UInt32}
    (found : (services.filter fun entry => entry.1 ≠ id').lookup id = some r) :
    services.lookup id = some r := by
  induction services with
  | nil => exact found
  | cons entry rest ih =>
    obtain ⟨key, srv⟩ := entry
    by_cases erased : key = id'
    · rw [List.filter_cons_of_neg (by simpa using erased)] at found
      have other : id ≠ key := by
        rintro rfl
        obtain ⟨_, _, eq, -⟩ := List.lookup_eq_some_iff.mp found
        have mem : (id, r) ∈ rest.filter fun entry => entry.1 ≠ id' := by
          rw [eq]
          exact List.mem_append_right _ (List.mem_cons_self ..)
        simp [erased] at mem
      rw [List.lookup_cons, beq_false_of_ne other]
      exact ih found
    · rw [List.filter_cons_of_pos (by simpa using erased), List.lookup_cons] at found
      rw [List.lookup_cons]
      split at found
      · exact found
      · exact ih found

/-- A service that is found was found before the step, unless the step created it. -/
theorem Step.found_of (step : Step σ e σ') {id : UInt32} (old : r < σ.nextRef)
    (found : σ'.getService id = some r) : σ.getService id = some r := by
  cases step with
  | service step =>
    cases step with
    | newService =>
      simp only [State.getService, State.newService] at found ⊢
      split at found
      · exact found
      · rw [List.lookup_append, Option.or_eq_some_iff] at found
        rcases found with found | ⟨-, created⟩
        · exact found
        · obtain ⟨_, _, eq, -⟩ := List.lookup_eq_some_iff.mp created
          have new : r = σ.nextRef := by
            have mem : (id, r) ∈ [(σ.maxId + 1, σ.nextRef)] := by simp [eq]
            simpa using (Prod.ext_iff.mp (List.mem_singleton.mp mem)).2
          exact absurd old (new ▸ Nat.lt_irrefl _)
    | onInit | onInitReturn | nameService => exact found
  | call step =>
    cases step with
    | killErase => exact lookup_of_erased found
    | _ => exact found
  | wake step => cases step <;> exact found
  | sleep step => cases step <;> exact found
  | turn step => cases step <;> exact found
  | main step => cases step <;> exact found

/-- A step takes the message of a call of `Send` on to `Push`, while the service is in the map; the
call is no new one. -/
theorem Step.underway (step : Step σ e σ') (reg : Registry σ) {id : UInt32} {k : Nat}
    (found : σ.getService id = some r) (own : σ.call k = .idle → σ'.call k = .idle) :
    (σ.call k).underway id r = e.pushedIn k r ++ (σ'.call k).underway id r := by
  have keep : e.pushedIn k r = [] → σ'.call k = σ.call k →
      (σ.call k).underway id r = e.pushedIn k r ++ (σ'.call k).underway id r := by
    intro silent same
    rw [silent, same, List.nil_append]
  have move : ∀ {k' : Nat} {pc : CallPc}, σ'.call = Function.update σ.call k' pc →
      (k' = k → (σ.call k).underway id r = e.pushedIn k r ++ pc.underway id r) →
      (k' ≠ k → e.pushedIn k r = []) →
      (σ.call k).underway id r = e.pushedIn k r ++ (σ'.call k).underway id r := by
    intro k' pc call mine other
    rw [call]
    by_cases same : k = k'
    · subst same
      rw [Function.update_self]
      exact mine rfl
    · rw [Function.update_of_ne same, other (Ne.symm same), List.nil_append]
  have fresh : ∀ {k' : Nat} {pc : CallPc}, σ'.call = Function.update σ.call k' pc →
      σ.call k' = .idle → pc ≠ .idle → e.pushedIn k r = [] →
      (σ.call k).underway id r = e.pushedIn k r ++ (σ'.call k).underway id r := by
    intro k' pc call idle busy silent
    refine move call (fun same => ?_) fun _ => silent
    subst same
    have still := own idle
    rw [call, Function.update_self] at still
    exact absurd still busy
  have away : ∀ {k' : Nat} {pc pc' : CallPc}, σ'.call = Function.update σ.call k' pc' →
      σ.call k' = pc → pc.underway id r = [] → pc'.underway id r = [] → e.pushedIn k r = [] →
      (σ.call k).underway id r = e.pushedIn k r ++ (σ'.call k).underway id r := by
    intro k' pc pc' call h before after silent
    refine move call (fun same => ?_) fun _ => silent
    subst same
    rw [h, before, after, silent, List.nil_append]
  cases step with
  | service step => cases step <;> exact keep rfl rfl
  | call step =>
    cases step with
    | send _ _ idle => exact fresh rfl idle (by rintro ⟨⟩) rfl
    | kill _ idle => exact fresh rfl idle (by rintro ⟨⟩) rfl
    | @sendFound k' toId msg r' h found' =>
      refine move rfl (fun same => ?_) fun _ => rfl
      subst same
      have there : toId = id ↔ r' = r := by
        constructor
        · rintro rfl
          exact Option.some.inj (found'.symm.trans found)
        · rintro rfl
          rw [← (reg.found found').1, (reg.found found).1]
      simp [h, CallPc.underway, Event.pushedIn, there]
    | @sendMissed k' toId msg h missed =>
      refine away rfl h ?_ rfl rfl
      have other : toId ≠ id := by
        rintro rfl
        rw [missed] at found
        cases found
      exact if_neg other
    | @sendPush k' r' msg h =>
      refine move rfl (fun same => ?_) fun other => ?_
      · subst same
        simp [h, CallPc.underway, Event.pushedIn]
      · simp [Event.pushedIn, other]
    | @sendEnter k' r' h | @killEnter k' r' h =>
      have entered : (σ.afterEnter r').underway id r = [] := by
        unfold State.afterEnter
        split <;> rfl
      exact away rfl h rfl entered rfl
    | killFound h | killMissed h | killErase h | killName h | killMark h =>
      exact away rfl h (by rfl) (by rfl) rfl
    | killRead h => exact away rfl h rfl (by split <;> rfl) rfl
  | wake step =>
    cases step with
    | wakeTest h | wakeLength h => exact away rfl h rfl (by split <;> rfl) rfl
    | wakeCount h | wakeSignal h | wakeNone h => exact away rfl h (by rfl) (by rfl) rfl
  | sleep step => cases step <;> exact keep rfl rfl
  | turn step =>
    cases step with
    | clearSend _ _ _ idle => exact fresh rfl idle (by rintro ⟨⟩) rfl
    | _ => exact keep rfl rfl
  | main step =>
    cases step with
    | killNext _ idle => exact fresh rfl idle (by rintro ⟨⟩) rfl
    | _ => exact keep rfl rfl

/-- The service that `GetService` finds is not being retired. -/
theorem not_isExiting_of_found (run : (node n).Run σ tr) {id : UInt32}
    (found : σ.getService id = some r) : (σ.srv r).isExiting = false := by
  have reg := Registry.run run
  by_contra marked
  exact reg.marked r (by simpa using marked) (reg.found found).2

end Starnet.Core
