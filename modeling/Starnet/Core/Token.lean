import Starnet.Core.Born

/-! The scheduling token of a service. The copies of a service in the global queue and the workers
that hold it are at most one together: exactly one while `inGlobal` is true, none while it is
false. The exit path keeps `inGlobal` true for good, so no copy is ever made after it. -/

namespace Starnet.Core

open Transition

variable {n : Nat}

/-! ### The token -/

/-- The worker holds service `r`. -/
def WorkerPc.holds (r : ServiceRef) (pc : WorkerPc) : Bool := decide (pc.held = some r)

@[simp] theorem WorkerPc.holds_iff {r : ServiceRef} {pc : WorkerPc} :
    pc.holds r = true ↔ pc.held = some r := decide_eq_true_iff

/-- The number of workers that hold service `r`. -/
def State.holders (σ : State n) (r : ServiceRef) : Nat := tally (WorkerPc.holds r) σ.worker

theorem State.holders_setWorker (σ : State n) (w : Fin n) (pc : WorkerPc) (r : ServiceRef) :
    (σ.setWorker w pc).holders r + (if (σ.worker w).held = some r then 1 else 0) =
      σ.holders r + (if pc.held = some r then 1 else 0) := by
  simpa [State.holders, State.setWorker] using tally_update (WorkerPc.holds r) σ.worker w pc

theorem State.holders_congr {σ σ' : State n} {r : ServiceRef}
    (h : ∀ w, (σ'.worker w).held = some r ↔ (σ.worker w).held = some r) :
    σ'.holders r = σ.holders r :=
  tally_congr fun w => by simp [WorkerPc.holds, h w]

/-- Before the exit path the copies in the global queue and the holders of `r` together number one
while `inGlobal` is true and none otherwise. From the exit path on there is no copy, only the
worker in the exit path holds `r`, and `inGlobal` stays true. -/
structure Token (σ : State n) (r : ServiceRef) : Prop where
  live : (σ.srv r).exited = false →
    σ.globalQueue.count r + σ.holders r = if (σ.srv r).mq.inGlobal then 1 else 0
  dead : (σ.srv r).exited = true →
    σ.globalQueue.count r = 0 ∧ σ.holders r ≤ 1 ∧ (σ.srv r).mq.inGlobal = true
  phase : ∀ w, (σ.worker w).held = some r →
    ((σ.worker w).exiting = some r ↔ (σ.srv r).exited = true)

namespace Token

variable {σ σ' : State n} {e : Event n} {r : ServiceRef}

theorem initial (r : ServiceRef) : Token (State.initial n) r := by
  constructor
  · intro _
    simp [State.initial, State.holders, tally_eq_zero, WorkerPc.holds, WorkerPc.held]
  · simp [State.initial]
  · simp [State.initial, WorkerPc.held]

/-- A step that changes nothing that the token reads of `r` keeps it. -/
theorem keep (t : Token σ r) (queue : σ'.globalQueue.count r = σ.globalQueue.count r)
    (held : ∀ w, (σ'.worker w).held = some r ↔ (σ.worker w).held = some r)
    (exiting : ∀ w, (σ'.worker w).exiting = some r ↔ (σ.worker w).exiting = some r)
    (inGlobal : (σ'.srv r).mq.inGlobal = (σ.srv r).mq.inGlobal)
    (exited : (σ'.srv r).exited = (σ.srv r).exited) : Token σ' r := by
  constructor
  · rw [exited, queue, State.holders_congr held, inGlobal]
    exact t.live
  · rw [exited, queue, State.holders_congr held, inGlobal]
    exact t.dead
  · intro w h
    rw [exiting, exited]
    exact t.phase w ((held w).mp h)

theorem holders_le_one (t : Token σ r) : σ.holders r ≤ 1 := by
  cases exited : (σ.srv r).exited with
  | true => exact (t.dead exited).2.1
  | false =>
    have := t.live exited
    split at this <;> omega

/-- At most one worker holds a service. -/
theorem unique (t : Token σ r) {w w' : Fin n} (hw : (σ.worker w).held = some r)
    (hw' : (σ.worker w').held = some r) : w = w' :=
  tally_unique t.holders_le_one (WorkerPc.holds_iff.mpr hw) (WorkerPc.holds_iff.mpr hw')

theorem holders_pos {w : Fin n} (hw : (σ.worker w).held = some r) : 0 < σ.holders r :=
  tally_pos (WorkerPc.holds_iff.mpr hw)

/-- While a worker outside the exit path holds `r`, there is no copy of `r` in the global queue,
no other holder, and `inGlobal` is true. -/
theorem of_held (t : Token σ r) {w : Fin n} (hw : (σ.worker w).held = some r)
    (live : (σ.srv r).exited = false) :
    σ.globalQueue.count r = 0 ∧ σ.holders r = 1 ∧ (σ.srv r).mq.inGlobal = true := by
  have pos := holders_pos hw
  have sum := t.live live
  split at sum
  · rename_i inGlobal
    exact ⟨by omega, by omega, inGlobal⟩
  · omega

/-- A worker that holds `r` outside the exit path holds a service that has not exited. -/
theorem not_exited (t : Token σ r) {w : Fin n} (hw : (σ.worker w).held = some r)
    (h : (σ.worker w).exiting = none) : (σ.srv r).exited = false := by
  have := t.phase w hw
  rw [h] at this
  simpa using this

theorem setWorker_keep (t : Token σ r) (w : Fin n) {pc : WorkerPc}
    (held : pc.held = (σ.worker w).held) (exiting : pc.exiting = (σ.worker w).exiting) :
    Token (σ.setWorker w pc) r :=
  t.keep rfl (fun w' => by rw [State.setWorker_keeps σ w held w'])
    (fun w' => by rw [State.setWorker_keeps σ w exiting w']) rfl rfl

theorem modService_keep (t : Token σ r) (r' : ServiceRef) {f : Service → Service}
    (inGlobal : (f (σ.srv r')).mq.inGlobal = (σ.srv r').mq.inGlobal)
    (exited : (f (σ.srv r')).exited = (σ.srv r').exited) : Token (σ.modService r' f) r :=
  t.keep rfl (fun _ => Iff.rfl) (fun _ => Iff.rfl)
    (State.modService_keeps σ r' (g := fun s => s.mq.inGlobal) inGlobal r)
    (State.modService_keeps σ r' (g := fun s => s.exited) exited r)

theorem modQueue_keep (t : Token σ r) (r' : ServiceRef) {f : StarnetMQ → StarnetMQ}
    (inGlobal : (f (σ.srv r').mq).inGlobal = (σ.srv r').mq.inGlobal) :
    Token (σ.modQueue r' f) r :=
  t.modService_keep r' inGlobal rfl

theorem setCall_keep (t : Token σ r) (k : Nat) (pc : CallPc) : Token (σ.setCall k pc) r :=
  t.keep rfl (fun _ => Iff.rfl) (fun _ => Iff.rfl) rfl rfl

theorem tryEnterGlobal (t : Token σ r) (r' : ServiceRef) : Token (σ.tryEnterGlobal r') r := by
  cases inside : (σ.srv r').mq.inGlobal with
  | true => rwa [State.tryEnterGlobal_inside inside]
  | false =>
    rw [State.tryEnterGlobal_outside inside]
    by_cases same : r = r'
    · subst same
      have live : (σ.srv r).exited = false := by
        by_contra exited
        have := (t.dead (by simpa using exited)).2.2
        rw [inside] at this
        contradiction
      have sum := t.live live
      rw [inside] at sum
      refine ⟨fun _ => ?_, fun exited => ?_, fun w held => ?_⟩
      · have holders : State.holders { σ.modQueue r fun mq => { mq with inGlobal := true } with
            globalQueue := σ.globalQueue ++ [r] } r = σ.holders r := rfl
        rw [holders]
        simp only [State.modQueue, State.modService_srv_same, if_true, List.count_append,
          List.count_singleton_self]
        simp only [Bool.false_eq_true, if_false] at sum
        omega
      · simp [State.modQueue, live] at exited
      · have := t.phase w held
        simpa [State.modQueue] using this
    · refine t.keep ?_ (fun _ => Iff.rfl) (fun _ => Iff.rfl) ?_ ?_
      · simp [List.count_append, Ne.symm same]
      · simp [State.modQueue, State.modService_srv_other _ _ _ same]
      · simp [State.modQueue, State.modService_srv_other _ _ _ same]

theorem take (t : Token σ r) {w : Fin n} {r' : ServiceRef} {rest : List ServiceRef}
    (h : σ.worker w = .popGlobal) (queue : σ.globalQueue = r' :: rest) :
    Token ({ σ with globalQueue := rest }.setWorker w (.readLength r')) r := by
  have idle : (σ.worker w).held = none := by rw [h]; rfl
  by_cases same : r = r'
  · subst same
    have live : (σ.srv r).exited = false := by
      by_contra exited
      have := (t.dead (by simpa using exited)).1
      simp [queue] at this
    have moved := State.holders_setWorker { σ with globalQueue := rest } w (.readLength r) r
    have before : State.holders { σ with globalQueue := rest } r = σ.holders r := rfl
    have taken : (WorkerPc.readLength r).held = some r := rfl
    have free : ((({ σ with globalQueue := rest } : State n)).worker w).held = none := idle
    simp only [free, before, taken, if_true, reduceCtorEq, if_false] at moved
    have sum := t.live live
    simp only [queue, List.count_cons_self] at sum
    refine ⟨fun _ => ?_, fun exited => ?_, fun w' held => ?_⟩
    · show rest.count r + _ = if (σ.srv r).mq.inGlobal then 1 else 0
      omega
    · exact absurd (live.symm.trans exited) (by decide)
    · by_cases worker : w' = w
      · subst worker
        simp [WorkerPc.exiting, live]
      · rw [State.setWorker_worker_other _ _ _ worker] at held ⊢
        exact t.phase w' held
  · have other : some r' ≠ some r := fun eq => same (Option.some.inj eq).symm
    refine t.keep ?_ ?_ ?_ rfl rfl
    · simp [queue, Ne.symm same]
    · exact State.setWorker_iff { σ with globalQueue := rest } w
        (p := fun pc => pc.held = some r) (by simp [h, WorkerPc.held, other])
    · exact State.setWorker_iff { σ with globalQueue := rest } w
        (p := fun pc => pc.exiting = some r) (by simp [h, WorkerPc.exiting])

/-- A worker that gives up `r'` changes nothing for another service. -/
theorem release_other (t : Token σ r) {w : Fin n} {r' : ServiceRef} (ne : r ≠ r')
    (h : (σ.worker w).held = some r')
    (exiting : (σ.worker w).exiting = none ∨ (σ.worker w).exiting = some r') :
    Token (σ.setWorker w .popGlobal) r := by
  have other : some r' ≠ some r := fun eq => ne (Option.some.inj eq).symm
  have popped : WorkerPc.popGlobal.held = none ∧ WorkerPc.popGlobal.exiting = none := ⟨rfl, rfl⟩
  refine t.keep rfl ?_ ?_ rfl rfl
  · exact State.setWorker_iff σ w (p := fun pc => pc.held = some r) (by simp [h, popped.1, other])
  · exact State.setWorker_iff σ w (p := fun pc => pc.exiting = some r)
      (by rcases exiting with exiting | exiting <;> simp [exiting, popped.2, other])

/-- Once its holder has given `r` up, no worker holds `r`. -/
theorem release_holders (t : Token σ r) {w : Fin n} (h : (σ.worker w).held = some r) :
    (σ.setWorker w .popGlobal).holders r = 0 := by
  have moved := State.holders_setWorker σ w .popGlobal r
  have le := t.holders_le_one
  have popped : WorkerPc.popGlobal.held = none := rfl
  simp only [h, popped, if_true, reduceCtorEq, if_false] at moved
  omega

theorem no_holder {w : Fin n} (h : σ.holders r = 0) : (σ.worker w).held ≠ some r := by
  intro held
  have := holders_pos held
  omega

theorem finish (t : Token σ r) {w : Fin n} {r' : ServiceRef} (h : σ.worker w = .finish r') :
    Token ((σ.finishDispatch r').setWorker w .popGlobal) r := by
  have held : (σ.worker w).held = some r' := by rw [h]; rfl
  by_cases same : r = r'
  · subst same
    have live := t.not_exited held (by rw [h]; rfl)
    obtain ⟨absent, -, inGlobal⟩ := t.of_held held live
    have given := t.release_holders held
    by_cases empty : (σ.srv r).mq.msgQueue = []
    · rw [State.finishDispatch_empty empty]
      refine ⟨fun _ => ?_, fun exited => ?_, fun w' held' => absurd held' (no_holder given)⟩
      · show σ.globalQueue.count r + (σ.setWorker w .popGlobal).holders r = _
        simp [State.modQueue, absent, given]
      · simp [State.modQueue, live] at exited
    · rw [State.finishDispatch_nonempty empty]
      refine ⟨fun _ => ?_, fun exited => ?_, fun w' held' => absurd held' (no_holder given)⟩
      · show (σ.globalQueue ++ [r]).count r + (σ.setWorker w .popGlobal).holders r =
          if (σ.srv r).mq.inGlobal then 1 else 0
        simp [absent, given, inGlobal]
      · exact absurd (live.symm.trans exited) (by decide)
  · have other := t.release_other same held (.inl (by rw [h]; rfl))
    by_cases empty : (σ.srv r').mq.msgQueue = []
    · rw [State.finishDispatch_empty empty]
      refine other.keep rfl (fun _ => Iff.rfl) (fun _ => Iff.rfl) ?_ ?_
      · simp [State.modQueue, State.modService_srv_other _ _ _ same]
      · simp [State.modQueue, State.modService_srv_other _ _ _ same]
    · rw [State.finishDispatch_nonempty empty]
      refine other.keep ?_ (fun _ => Iff.rfl) (fun _ => Iff.rfl) rfl rfl
      show (σ.globalQueue ++ [r']).count r = σ.globalQueue.count r
      simp [List.count_append, Ne.symm same]

theorem exit (t : Token σ r) {w : Fin n} {r' : ServiceRef} (h : σ.worker w = .testExiting r')
    (first : (σ.srv r').exited = false) :
    Token ((σ.modService r' fun s => { s with exited := true }).setWorker w (.onExit r')) r := by
  have held : (σ.worker w).held = some r' := by rw [h]; rfl
  by_cases same : r = r'
  · subst same
    obtain ⟨absent, one, inGlobal⟩ := t.of_held held first
    have holders : ((σ.modService r fun s => { s with exited := true }).setWorker w
        (.onExit r)).holders r = σ.holders r :=
      State.holders_congr (State.setWorker_iff _ w (p := fun pc => pc.held = some r)
        (by rw [State.modService_worker, held]; rfl))
    refine ⟨fun live => ?_, fun _ => ⟨absent, ?_, ?_⟩, fun w' held' => ?_⟩
    · simp at live
    · rw [holders, one]
    · simpa using inGlobal
    · by_cases worker : w' = w
      · subst worker
        simp [WorkerPc.exiting]
      · rw [State.setWorker_worker_other _ _ _ worker] at held'
        exact absurd (t.unique held' held) worker
  · have other : some r' ≠ some r := fun eq => same (Option.some.inj eq).symm
    refine t.keep rfl ?_ ?_ ?_ ?_
    · exact State.setWorker_iff _ w (p := fun pc => pc.held = some r)
        (by rw [State.modService_worker, held]; rfl)
    · exact State.setWorker_iff _ w (p := fun pc => pc.exiting = some r)
        (by simp [h, WorkerPc.exiting, other])
    · simp [State.modService_srv_other _ _ _ same]
    · simp [State.modService_srv_other _ _ _ same]

theorem clearDone (t : Token σ r) {w : Fin n} {r' : ServiceRef} (h : σ.worker w = .clear r') :
    Token ((σ.modQueue r' fun mq => mq.unlockQueue).setWorker w .popGlobal) r := by
  have held : (σ.worker w).held = some r' := by rw [h]; rfl
  have exiting : (σ.worker w).exiting = some r' := by rw [h]; rfl
  have kept := t.modQueue_keep r' (f := fun mq => mq.unlockQueue) rfl
  by_cases same : r = r'
  · subst same
    have exited := (t.phase w held).mp exiting
    obtain ⟨absent, -, inGlobal⟩ := t.dead exited
    have given := kept.release_holders held
    refine ⟨fun live => ?_, fun _ => ⟨absent, by omega, ?_⟩,
      fun w' held' => absurd held' (no_holder given)⟩
    · simp [State.modQueue, exited] at live
    · simpa [State.modQueue] using inGlobal
  · exact kept.release_other same held (.inr exiting)

theorem serviceStep (t : Token σ r) (born : Born σ) (step : ServiceStep σ e σ') :
    Token σ' r := by
  cases step with
  | newService =>
    refine t.keep rfl (fun _ => Iff.rfl) (fun _ => Iff.rfl) ?_ ?_ <;>
    · by_cases same : r = σ.nextRef
      · subst same
        simp [State.newService, born.srv σ.nextRef le_rfl]
      · simp [State.newService, Function.update_of_ne same]
  | onInit | onInitReturn => exact t.modService_keep _ rfl rfl
  | nameService => exact t.keep rfl (fun _ => Iff.rfl) (fun _ => Iff.rfl) rfl rfl

theorem callStep (t : Token σ r) (step : CallStep σ e σ') : Token σ' r := by
  cases step with
  | send | sendFound | sendMissed | kill | killFound | killMissed | killRead =>
    exact t.setCall_keep _ _
  | sendPush => exact (t.modQueue_keep _ rfl).setCall_keep _ _
  | sendEnter | killEnter => exact (t.tryEnterGlobal _).setCall_keep _ _
  | killErase | killName => exact t.keep rfl (fun _ => Iff.rfl) (fun _ => Iff.rfl) rfl rfl
  | killMark => exact (t.modService_keep _ rfl rfl).setCall_keep _ _

theorem wakeStep (t : Token σ r) (step : WakeStep σ e σ') : Token σ' r := by
  cases step with
  | wakeTest | wakeCount | wakeLength | wakeNone => exact t.setCall_keep _ _
  | wakeSignal _ waits =>
    exact (t.setWorker_keep _ (by rw [waits]; rfl) (by rw [waits]; rfl)).setCall_keep _ _

theorem sleepStep (t : Token σ r) (step : SleepStep σ e σ') : Token σ' r := by
  have fields : ∀ mtx count,
      Token { σ with sleepMtx := mtx, sleepCount := count } r := fun _ _ =>
    t.keep rfl (fun _ => Iff.rfl) (fun _ => Iff.rfl) rfl rfl
  cases step with
  | take h queue => exact t.take h queue
  | takeNone h | spurious h => exact t.setWorker_keep _ (by rw [h]; rfl) (by rw [h]; rfl)
  | readExit h =>
    refine t.setWorker_keep _ ?_ ?_ <;> rw [h] <;> split <;> rfl
  | lockSleep h | condWait h | resume h =>
    exact (fields _ _).setWorker_keep _ (by rw [h]; rfl) (by rw [h]; rfl)

theorem turnStep (t : Token σ r) (step : TurnStep σ e σ') : Token σ' r := by
  cases step with
  | readLength h | processDone h | onMsgReturn h | testLive h | clearResume h =>
    exact t.setWorker_keep _ (by rw [h]; rfl) (by rw [h]; rfl)
  | processPop h | processNone h | readOverload h | onExitReturn h =>
    exact (t.modQueue_keep _ (by simp)).setWorker_keep _ (by simp [State.modQueue, h, WorkerPc.held])
      (by simp [State.modQueue, h, WorkerPc.exiting])
  | testExiting h _ first => exact t.exit h first
  | @testExited w r' h _ again =>
    have held : (σ.worker w).held = some r' := by rw [h]; rfl
    have exiting : (σ.worker w).exiting = none := by rw [h]; rfl
    by_cases same : r = r'
    · subst same
      rw [t.not_exited held exiting] at again
      contradiction
    · exact t.release_other same held (.inl exiting)
  | finish h => exact t.finish h
  | clearDrop => exact t.modQueue_keep _ rfl
  | clearSend h =>
    exact ((t.modQueue_keep _ rfl).setCall_keep _ _).setWorker_keep _
      (by simp [State.modQueue, h, WorkerPc.held]) (by simp [State.modQueue, h, WorkerPc.exiting])
  | clearDone h => exact t.clearDone h

theorem mainStep (t : Token σ r) (step : MainStep σ e σ') : Token σ' r := by
  cases step with
  | killAll | killNext | killReturn | setExit =>
    exact t.keep rfl (fun _ => Iff.rfl) (fun _ => Iff.rfl) rfl rfl
  | wakeAll =>
    refine t.keep rfl (fun w => ?_) (fun w => ?_) rfl rfl <;>
    · simp only [State.broadcast]
      split
      · rename_i waits
        simp [waits, WorkerPc.held, WorkerPc.exiting]
      · exact Iff.rfl

theorem step (t : Token σ r) (born : Born σ) (step : Step σ e σ') : Token σ' r := by
  cases step with
  | service h => exact t.serviceStep born h
  | call h => exact t.callStep h
  | wake h => exact t.wakeStep h
  | sleep h => exact t.sleepStep h
  | turn h => exact t.turnStep h
  | main h => exact t.mainStep h

/-- Every service has its token in every reachable state. -/
theorem run {tr : List (Event n)} (run : (node n).Run σ tr) (r : ServiceRef) : Token σ r :=
  run.invariant (P := fun σ _ => Token σ r) (fun _ h => h ▸ initial r)
    fun _ _ _ _ run t step => t.step (Born.run run) step

end Token

end Starnet.Core
