import Starnet.Core.Token

/-! Retirement is final. The exit path of a service runs at most once, for the worker that starts it
keeps the scheduling token, and the token is never given back: from then on no worker can pop a
message of the service, whatever the killers and the senders do. -/

namespace Starnet.Core

open Transition

variable {n : Nat} {σ σ' : State n} {tr : List (Event n)} {e : Event n} {r : ServiceRef}

namespace Event

/-- The event is the call of `OnExit` on service `r`. -/
def exits (r : ServiceRef) : Event n → Bool
  | .exit _ srv => srv = r
  | _ => false

/-- The event is the end of `Clear` on service `r`. -/
def clears (r : ServiceRef) : Event n → Bool
  | .cleared _ srv => srv = r
  | _ => false

/-- The event is a step of a worker in `ProcessMsg` of service `r` that leads to `OnMsg`. -/
def dispatches (r : ServiceRef) : Event n → Bool
  | .process _ srv _ | .overload _ srv _ => srv = r
  | _ => false

end Event

/-- The number of calls of `OnExit` on service `r`. -/
def exits (r : ServiceRef) (tr : List (Event n)) : Nat := tr.countP (Event.exits r)

/-- The number of times that `Clear` on service `r` came to its end. -/
def clears (r : ServiceRef) (tr : List (Event n)) : Nat := tr.countP (Event.clears r)

/-- The worker runs the exit path of service `r`. -/
def WorkerPc.leads (r : ServiceRef) (pc : WorkerPc) : Bool := decide (pc.exiting = some r)

/-- The number of workers in the exit path of service `r`. -/
def State.leavers (σ : State n) (r : ServiceRef) : Nat := tally (WorkerPc.leads r) σ.worker

theorem exits_concat : exits r (tr ++ [e]) = exits r tr + if e.exits r then 1 else 0 := by
  simp [exits, List.countP_append, List.countP_cons]

theorem clears_concat : clears r (tr ++ [e]) = clears r tr + if e.clears r then 1 else 0 := by
  simp [clears, List.countP_append, List.countP_cons]

theorem leavers_setWorker (σ : State n) (w : Fin n) (pc : WorkerPc) (r : ServiceRef) :
    (σ.setWorker w pc).leavers r + (if (σ.worker w).exiting = some r then 1 else 0) =
      σ.leavers r + (if pc.exiting = some r then 1 else 0) := by
  simpa [State.leavers, State.setWorker, WorkerPc.leads] using
    tally_update (WorkerPc.leads r) σ.worker w pc

/-! ### What a step does to an exit path -/

/-- A step starts the exit path of a service, ends one, or leaves all of them as they are. -/
inductive ExitStep (σ : State n) (e : Event n) (σ' : State n) : Prop
  | start {w : Fin n} {r : ServiceRef} (event : e = .exit w r) (h : σ.worker w = .testExiting r)
      (first : (σ.srv r).exited = false)
      (eq : σ' = (σ.modService r fun s => { s with exited := true }).setWorker w (.onExit r))
  | finish {w : Fin n} {r : ServiceRef} (event : e = .cleared w r) (h : σ.worker w = .clear r)
      (eq : σ' = (σ.modQueue r fun mq => mq.unlockQueue).setWorker w .popGlobal)
  | keep (quiet : ∀ r, e.exits r = false ∧ e.clears r = false)
      (exited : ∀ r, (σ'.srv r).exited = (σ.srv r).exited)
      (exiting : ∀ w, (σ'.worker w).exiting = (σ.worker w).exiting)

namespace ExitStep

/-- A step of worker `w` that stays on its side of the exit path, after a change of the services
that keeps `exited`. -/
theorem setWorker {τ : State n} {w : Fin n} {pc : WorkerPc}
    (quiet : ∀ r, e.exits r = false ∧ e.clears r = false)
    (exited : ∀ r, (τ.srv r).exited = (σ.srv r).exited) (worker : τ.worker = σ.worker)
    (exiting : pc.exiting = (σ.worker w).exiting) : ExitStep σ e (τ.setWorker w pc) :=
  .keep quiet exited fun w' => by
    rw [← worker] at exiting ⊢
    exact State.setWorker_keeps τ w exiting w'

theorem exited_update {r' : ServiceRef} {s : Service} (h : s.exited = (σ.srv r').exited)
    (r : ServiceRef) : (Function.update σ.srv r' s r).exited = (σ.srv r).exited :=
  State.modService_keeps σ r' (g := fun s => s.exited) (f := fun _ => s) h r

theorem serviceStep (born : Born σ) (step : ServiceStep σ e σ') : ExitStep σ e σ' := by
  cases step with
  | newService =>
    refine .keep (fun _ => ⟨rfl, rfl⟩) (exited_update ?_) fun _ => rfl
    rw [born.srv σ.nextRef le_rfl]
  | onInit | onInitReturn => exact .keep (fun _ => ⟨rfl, rfl⟩) (exited_update rfl) fun _ => rfl
  | nameService => exact .keep (fun _ => ⟨rfl, rfl⟩) (fun _ => rfl) fun _ => rfl

theorem callStep (step : CallStep σ e σ') : ExitStep σ e σ' := by
  cases step with
  | send | sendFound | sendMissed | kill | killFound | killMissed | killRead | killErase
  | killName => exact .keep (fun _ => ⟨rfl, rfl⟩) (fun _ => rfl) fun _ => rfl
  | sendPush | sendEnter | killEnter | killMark =>
    exact .keep (fun _ => ⟨rfl, rfl⟩) (exited_update rfl) fun _ => rfl

theorem wakeStep (step : WakeStep σ e σ') : ExitStep σ e σ' := by
  cases step with
  | wakeTest | wakeCount | wakeLength | wakeNone =>
    exact .keep (fun _ => ⟨rfl, rfl⟩) (fun _ => rfl) fun _ => rfl
  | @wakeSignal k w _ waits =>
    refine .keep (fun _ => ⟨rfl, rfl⟩) (fun _ => rfl) fun w' => ?_
    exact State.setWorker_keeps σ w (by rw [waits]; rfl) w'

theorem sleepStep (step : SleepStep σ e σ') : ExitStep σ e σ' := by
  cases step with
  | take h | takeNone h | lockSleep h | condWait h | spurious h | resume h =>
    exact setWorker (fun _ => ⟨rfl, rfl⟩) (fun _ => rfl) rfl (by rw [h]; rfl)
  | readExit h =>
    exact setWorker (fun _ => ⟨rfl, rfl⟩) (fun _ => rfl) rfl (by rw [h]; split <;> rfl)

theorem turnStep (step : TurnStep σ e σ') : ExitStep σ e σ' := by
  cases step with
  | readLength h | processDone h | onMsgReturn h | testLive h | testExited h | clearResume h =>
    exact setWorker (fun _ => ⟨rfl, rfl⟩) (fun _ => rfl) rfl (by rw [h]; rfl)
  | processPop h | processNone h | readOverload h | onExitReturn h | finish h =>
    exact setWorker (fun _ => ⟨rfl, rfl⟩) (exited_update rfl) rfl (by rw [h]; rfl)
  | testExiting h _ first => exact .start rfl h first rfl
  | clearDrop => exact .keep (fun _ => ⟨rfl, rfl⟩) (exited_update rfl) fun _ => rfl
  | clearSend h =>
    exact setWorker (fun _ => ⟨rfl, rfl⟩) (exited_update rfl) rfl (by rw [h]; rfl)
  | clearDone h => exact .finish rfl h rfl

theorem mainStep (step : MainStep σ e σ') : ExitStep σ e σ' := by
  cases step with
  | killAll | killNext | killReturn | setExit =>
    exact .keep (fun _ => ⟨rfl, rfl⟩) (fun _ => rfl) fun _ => rfl
  | wakeAll =>
    refine .keep (fun _ => ⟨rfl, rfl⟩) (fun _ => rfl) fun w => ?_
    simp only [State.broadcast]
    split
    · rename_i waits
      rw [waits]
      rfl
    · rfl

end ExitStep

theorem Step.exitStep (born : Born σ) (step : Step σ e σ') : ExitStep σ e σ' := by
  cases step with
  | service h => exact .serviceStep born h
  | call h => exact .callStep h
  | wake h => exact .wakeStep h
  | sleep h => exact .sleepStep h
  | turn h => exact .turnStep h
  | main h => exact .mainStep h

/-! ### Exit paths of a run -/

/-- The calls of `OnExit` on `r` are counted by `exited`, and each of them is followed by the end of
`Clear` or has a worker in the exit path. -/
structure ExitPaths (σ : State n) (tr : List (Event n)) (r : ServiceRef) : Prop where
  exits : exits r tr = if (σ.srv r).exited then 1 else 0
  clears : clears r tr + σ.leavers r = Core.exits r tr

namespace ExitPaths

theorem initial (r : ServiceRef) : ExitPaths (State.initial n) [] r := by
  have none : (State.initial n).leavers r = 0 := tally_eq_zero.mpr fun _ => rfl
  exact ⟨rfl, by rw [none]; rfl⟩

theorem start (p : ExitPaths σ tr r) {w : Fin n} {r' : ServiceRef}
    (h : σ.worker w = .testExiting r') (first : (σ.srv r').exited = false) :
    ExitPaths ((σ.modService r' fun s => { s with exited := true }).setWorker w (.onExit r'))
      (tr ++ [.exit w r']) r := by
  have moved := leavers_setWorker (σ.modService r' fun s => { s with exited := true }) w
    (.onExit r') r
  have before : (σ.modService r' fun s => { s with exited := true }).leavers r = σ.leavers r := rfl
  simp only [before, State.modService_worker, h, WorkerPc.exiting, reduceCtorEq, if_false,
    Option.some.injEq] at moved
  have paths := p.clears
  by_cases same : r' = r
  · subst same
    have none := p.exits
    simp only [first, Bool.false_eq_true, if_false] at none
    refine ⟨?_, ?_⟩
    · simp [exits_concat, none, Event.exits]
    · simp only [clears_concat, exits_concat, Event.clears, Event.exits]
      simp at moved ⊢
      omega
  · refine ⟨?_, ?_⟩
    · simpa [exits_concat, Event.exits, same, State.modService_srv_other _ _ _ (Ne.symm same)]
        using p.exits
    · simp only [clears_concat, exits_concat, Event.clears, Event.exits]
      simp [same] at moved ⊢
      omega

theorem finish (p : ExitPaths σ tr r) {w : Fin n} {r' : ServiceRef}
    (h : σ.worker w = .clear r') :
    ExitPaths ((σ.modQueue r' fun mq => mq.unlockQueue).setWorker w .popGlobal)
      (tr ++ [.cleared w r']) r := by
  have moved := leavers_setWorker (σ.modQueue r' fun mq => mq.unlockQueue) w .popGlobal r
  have before : (σ.modQueue r' fun mq => mq.unlockQueue).leavers r = σ.leavers r := rfl
  have worker : (σ.modQueue r' fun mq => mq.unlockQueue).worker w = .clear r' := h
  simp only [before, worker, WorkerPc.exiting, reduceCtorEq, if_false, Option.some.injEq] at moved
  have paths := p.clears
  refine ⟨?_, ?_⟩
  · have kept : ((σ.modQueue r' fun mq => mq.unlockQueue).srv r).exited = (σ.srv r).exited :=
      ExitStep.exited_update (s := { σ.srv r' with mq := (σ.srv r').mq.unlockQueue }) rfl r
    simpa [exits_concat, Event.exits, kept] using p.exits
  · simp only [clears_concat, exits_concat, Event.clears, Event.exits, decide_eq_true_eq]
    simp only [Bool.false_eq_true, if_false]
    omega

theorem step (p : ExitPaths σ tr r) (born : Born σ) (step : Step σ e σ') :
    ExitPaths σ' (tr ++ [e]) r := by
  cases step.exitStep born with
  | start event h first eq =>
    rw [event, eq]
    exact p.start h first
  | finish event h eq =>
    rw [event, eq]
    exact p.finish h
  | keep quiet exited exiting =>
    have leavers : σ'.leavers r = σ.leavers r :=
      tally_congr fun w => by simp [WorkerPc.leads, exiting w]
    refine ⟨?_, ?_⟩
    · simpa [exits_concat, (quiet r).1, exited r] using p.exits
    · simpa [exits_concat, clears_concat, quiet r, leavers] using p.clears

theorem run (run : (node n).Run σ tr) (r : ServiceRef) : ExitPaths σ tr r :=
  run.invariant (P := fun σ tr => ExitPaths σ tr r) (fun _ h => h ▸ initial r)
    fun _ _ _ _ run p step => p.step (Born.run run) step

theorem exits_le_one (p : ExitPaths σ tr r) : Core.exits r tr ≤ 1 := by
  rw [p.exits]
  split <;> simp

theorem exited_of_mem (p : ExitPaths σ tr r) {w : Fin n} (mem : .exit w r ∈ tr) :
    (σ.srv r).exited = true := by
  have pos : 0 < Core.exits r tr := List.countP_pos_iff.mpr ⟨_, mem, by simp [Event.exits]⟩
  rw [p.exits] at pos
  by_contra live
  simp [live] at pos

end ExitPaths

/-! ### The end of a service -/

/-- Once a service has exited, a worker that holds it is in the exit path. -/
theorem Token.not_onMsg (t : Token σ r) (exited : (σ.srv r).exited = true) (w : Fin n) (i : Nat)
    (msg : BaseMsg) : σ.worker w ≠ .onMsg r i msg := by
  intro h
  have exiting := (t.phase w (by rw [h]; rfl)).mpr exited
  rw [h] at exiting
  contradiction

/-- A step that runs `OnExit` of a service, or takes a worker to its `OnMsg`, finds that it has not
exited. -/
theorem Step.not_exited (step : Step σ e σ') (token : Token σ r)
    (h : e.exits r = true ∨ e.dispatches r = true) : (σ.srv r).exited = false := by
  cases step with
  | turn step =>
    cases step with
    | @testExiting w r' _ _ first =>
      have same : r' = r := by simpa [Event.exits, Event.dispatches] using h
      rwa [← same]
    | @processPop w r' i msg at_ | @readOverload w r' i msg at_ =>
      have same : r' = r := by simpa [Event.exits, Event.dispatches] using h
      subst same
      exact token.not_exited (by rw [at_]; rfl) (by rw [at_]; rfl)
    | _ => simp [Event.exits, Event.dispatches] at h
  | service step | call step | wake step | sleep step | main step =>
    cases step <;> simp [Event.exits, Event.dispatches] at h

/-- What follows the call of `OnExit` on service `r`: no second call, and no worker in `OnMsg` of
`r` or on the way there. -/
structure Final (σ : State n) (later : List (Event n)) (r : ServiceRef) : Prop where
  exits : ∀ e ∈ later, e.exits r = false
  dispatches : ∀ e ∈ later, e.dispatches r = false
  workers : ∀ w i msg, σ.worker w ≠ .onMsg r i msg

/-- `OnExit` of a service runs at most once, and after it no worker calls `OnMsg` of the service,
whatever calls of `KillService` and `Send` are in progress. -/
theorem exit_final (run : (node n).Run σ tr) (r : ServiceRef) :
    exits r tr ≤ 1 ∧
      ∀ before w later, tr = before ++ .exit w r :: later → Final σ later r := by
  refine ⟨(ExitPaths.run run r).exits_le_one, ?_⟩
  refine run.invariant
    (P := fun σ tr => ∀ before w later, tr = before ++ .exit w r :: later → Final σ later r) ?_ ?_
  · intro σ _ before w later eq
    exact absurd eq.symm (List.append_ne_nil_of_right_ne_nil _ (List.cons_ne_nil _ _))
  · intro σ tr e σ' run ih step before w later eq
    have run' := run.step step
    have exited : (σ'.srv r).exited = true :=
      (ExitPaths.run run' r).exited_of_mem (by rw [eq]; exact List.mem_append_right _ (.head _))
    have workers := (Token.run run' r).not_onMsg exited
    rcases List.eq_nil_or_concat' later with rfl | ⟨later, last, rfl⟩
    · exact ⟨nofun, nofun, workers⟩
    · rw [← List.cons_append, ← List.append_assoc] at eq
      obtain ⟨rfl, rfl⟩ : tr = before ++ .exit w r :: later ∧ e = last := by
        simpa using List.append_inj' eq rfl
      have final := ih before w later rfl
      have gone : (σ.srv r).exited = true :=
        (ExitPaths.run run r).exited_of_mem (List.mem_append_right _ (.head _))
      have blocked : ¬ (e.exits r = true ∨ e.dispatches r = true) := fun h => by
        rw [step.not_exited (Token.run run r) h] at gone
        contradiction
      simp only [not_or, Bool.not_eq_true] at blocked
      refine ⟨fun e' mem => ?_, fun e' mem => ?_, workers⟩ <;>
      · rcases List.mem_append.mp mem with mem | mem
        · first
          | exact final.exits e' mem
          | exact final.dispatches e' mem
        · rw [List.mem_singleton.mp mem]
          first
          | exact blocked.1
          | exact blocked.2

/-- Two calls of `KillService` and a sender that found the service before them: the worker runs
`OnExit` once, and the message that arrives then is never processed. -/
theorem exit_final_killed : ∃ (σ : State 1) (tr : List (Event 1)), (node 1).Run σ tr ∧
    (σ.srv 0).mq.msgQueue = [request 1] ∧ exits 0 tr = 1 ∧ exits 0 tr ≤ 1 ∧
      ∀ before w later, tr = before ++ .exit w 0 :: later → Final σ later 0 := by
  have h0 : (node 1).Run _ _ := .init rfl
  have h1 := h0.step (.service (.newService _))
  have h2 := h1.step (.service (.onInit (r := 0) rfl))
  have h3 := h2.step (.service (.onInitReturn (r := 0) rfl))
  have h4 := h3.step (.call (.kill (k := 0) 1 rfl))
  have h5 := h4.step (.call (.kill (k := 1) 1 rfl))
  have h6 := h5.step (.call (.send (k := 2) 1 (request 1) rfl))
  have h7 := h6.step (.call (.killFound (k := 0) (r := 0) rfl rfl))
  have h8 := h7.step (.call (.killFound (k := 1) (r := 0) rfl rfl))
  have h9 := h8.step (.call (.sendFound (k := 2) (r := 0) rfl rfl))
  have h10 := h9.step (.call (.killErase (k := 0) rfl))
  have h11 := h10.step (.call (.killName (k := 0) rfl))
  have h12 := h11.step (.call (.killMark (k := 0) rfl))
  have h13 := h12.step (.call (.killRead (k := 0) (r := 0) rfl))
  have h14 := h13.step (.call (.killErase (k := 1) rfl))
  have h15 := h14.step (.call (.killName (k := 1) rfl))
  have h16 := h15.step (.call (.killMark (k := 1) rfl))
  have h17 := h16.step (.call (.killRead (k := 1) (r := 0) rfl))
  have h18 := h17.step (.call (.killEnter (k := 0) rfl))
  have h19 := h18.step (.call (.killEnter (k := 1) rfl))
  have h20 := h19.step (.sleep (.take (w := 0) (r := 0) rfl rfl))
  have h21 := h20.step (.turn (.readLength (w := 0) rfl rfl))
  have h22 := h21.step (.turn (.processNone (w := 0) (i := 0) rfl rfl rfl))
  have h23 := h22.step (.turn (.testExiting (w := 0) rfl rfl rfl))
  have h24 := h23.step (.call (.sendPush (k := 2) rfl rfl))
  have h25 := h24.step (.call (.sendEnter (k := 2) rfl))
  exact ⟨_, _, h25, rfl, rfl, exit_final h25 0⟩

end Starnet.Core
