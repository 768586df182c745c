import Starnet.Core.Delivery

/-! The turns of the workers. What a step does to the queue of a service is said once, by
`QueueStep`. A worker of weight `k` processes `Length() >> k` messages of the service that it took,
which is none when fewer than `2 ^ k` are queued. -/

namespace Starnet.Core

open Transition

variable {n : Nat} {σ σ' : State n} {tr : List (Event n)} {e : Event n} {r : ServiceRef}

/-! ### What a step does to a queue -/

/-- No worker comes to or leaves a call of `Pop` or of `Overload` on `r`, except that a worker may
come to a call of `Pop`. -/
structure Undisturbed (σ σ' : State n) (r : ServiceRef) : Prop where
  process : ∀ w i, σ.worker w = .process r (i + 1) → σ'.worker w = .process r (i + 1)
  overload : ∀ w i msg, σ'.worker w = .readOverload r i msg ↔ σ.worker w = .readOverload r i msg

/-- A step calls one of the functions of the queue of `r`, or keeps its messages and what `Pop`
recorded. -/
inductive QueueStep (σ : State n) (e : Event n) (σ' : State n) (r : ServiceRef) : Prop
  | keep (quiet : e.quiet r) (queue : (σ'.srv r).mq.msgQueue = (σ.srv r).mq.msgQueue)
      (overload : (σ'.srv r).mq.overload = (σ.srv r).mq.overload)
      (threshold : (σ'.srv r).mq.overloadThreshold = (σ.srv r).mq.overloadThreshold)
      (silent : ∀ w length, e ≠ .overload w r length) (same : Undisturbed σ σ' r)
  | push {k : Nat} {msg : BaseMsg} (event : e = .push k r msg)
      (mq : (σ'.srv r).mq = (σ.srv r).mq.push msg) (same : Undisturbed σ σ' r)
  | pop {w : Fin n} {i : Nat} {msg : BaseMsg} (event : e = .process w r msg)
      (h : σ.worker w = .process r (i + 1)) (popped : (σ.srv r).mq.pop.1 = some msg)
      (mq : (σ'.srv r).mq = (σ.srv r).mq.pop.2)
      (worker : σ'.worker = Function.update σ.worker w (.readOverload r i msg))
  | popNone {w : Fin n} {i : Nat} (event : e = .tau) (h : σ.worker w = .process r (i + 1))
      (popped : (σ.srv r).mq.pop.1 = none) (mq : (σ'.srv r).mq = (σ.srv r).mq.pop.2)
      (worker : σ'.worker = Function.update σ.worker w (.testExiting r))
  | overload {w : Fin n} {i : Nat} {msg : BaseMsg}
      (event : e = .overload w r (σ.srv r).mq.takeOverload.1)
      (h : σ.worker w = .readOverload r i msg) (mq : (σ'.srv r).mq = (σ.srv r).mq.takeOverload.2)
      (worker : σ'.worker = Function.update σ.worker w (.onMsg r i msg))
  | drop {w : Fin n} {msg : BaseMsg} {rest : List BaseMsg} (event : e = .drop w r msg)
      (h : σ.worker w = .clear r) (queue : (σ.srv r).mq.msgQueue = msg :: rest)
      (mq : (σ'.srv r).mq = (σ.srv r).mq.dropFront) (same : Undisturbed σ σ' r)

namespace Undisturbed

theorem refl (h : σ'.worker = σ.worker) : Undisturbed σ σ' r := by
  constructor <;> simp [h]

/-- A step of worker `w` outside `Pop` and `Overload` on `r`. -/
theorem setWorker {τ : State n} {w : Fin n} {pc : WorkerPc} (worker : τ.worker = σ.worker)
    (process : ∀ i, σ.worker w ≠ .process r (i + 1))
    (before : ∀ i msg, σ.worker w ≠ .readOverload r i msg)
    (after : ∀ i msg, pc ≠ .readOverload r i msg) : Undisturbed σ (τ.setWorker w pc) r := by
  constructor
  · intro w' i h
    have other : w' ≠ w := by
      rintro rfl
      exact process i h
    rwa [State.setWorker_worker_other _ _ _ other, worker]
  · intro w' i msg
    by_cases same : w' = w
    · subst same
      rw [State.setWorker_worker_same]
      exact ⟨fun eq => absurd eq (after i msg), fun eq => absurd eq (before i msg)⟩
    · rw [State.setWorker_worker_other _ _ _ same, worker]

end Undisturbed

namespace QueueStep

theorem keep_srv (quiet : e.quiet r) (srv : σ'.srv = σ.srv)
    (silent : ∀ w length, e ≠ .overload w r length) (same : Undisturbed σ σ' r) :
    QueueStep σ e σ' r :=
  .keep quiet (by rw [srv]) (by rw [srv]) (by rw [srv]) silent same

/-- A step that replaces service `r'` and keeps of its queue the messages and what `Pop`
recorded. -/
theorem keep_at (quiet : e.quiet r) {r' : ServiceRef} {s : Service}
    (srv : σ'.srv = Function.update σ.srv r' s)
    (queue : s.mq.msgQueue = (σ.srv r').mq.msgQueue)
    (overload : s.mq.overload = (σ.srv r').mq.overload)
    (threshold : s.mq.overloadThreshold = (σ.srv r').mq.overloadThreshold)
    (silent : ∀ w length, e ≠ .overload w r length) (same : Undisturbed σ σ' r) :
    QueueStep σ e σ' r := by
  by_cases eq : r = r'
  · subst eq
    refine .keep quiet ?_ ?_ ?_ silent same <;> rw [srv, Function.update_self] <;> assumption
  · refine .keep quiet ?_ ?_ ?_ silent same <;> rw [srv, Function.update_of_ne eq]

/-- A step that replaces another service. -/
theorem keep_other (quiet : e.quiet r) {r' : ServiceRef} {s : Service}
    (srv : σ'.srv = Function.update σ.srv r' s) (ne : r ≠ r')
    (silent : ∀ w length, e ≠ .overload w r length) (same : Undisturbed σ σ' r) :
    QueueStep σ e σ' r := by
  refine .keep quiet ?_ ?_ ?_ silent same <;> rw [srv, Function.update_of_ne ne]

theorem serviceStep (born : Born σ) (step : ServiceStep σ e σ') : QueueStep σ e σ' r := by
  cases step with
  | newService =>
    refine keep_at ⟨rfl, rfl, rfl⟩ rfl ?_ ?_ ?_ (by simp) (.refl rfl) <;>
    rw [born.srv σ.nextRef le_rfl]
  | onInit | onInitReturn =>
    exact keep_at ⟨rfl, rfl, rfl⟩ rfl rfl rfl rfl (by simp) (.refl rfl)
  | nameService => exact keep_srv ⟨rfl, rfl, rfl⟩ rfl (by simp) (.refl rfl)

theorem callStep (step : CallStep σ e σ') : QueueStep σ e σ' r := by
  cases step with
  | send | sendFound | sendMissed | kill | killFound | killMissed | killRead | killErase
  | killName => exact keep_srv ⟨rfl, rfl, rfl⟩ rfl (by simp) (.refl rfl)
  | @sendPush k r' msg =>
    by_cases same : r = r'
    · subst same
      exact .push rfl (by simp [State.modQueue]) (.refl rfl)
    · exact keep_other (by simp [Event.quiet, Event.pushed, Event.processed, Event.dropped,
        Ne.symm same]) rfl same (by simp) (.refl rfl)
  | @sendEnter k r' | @killEnter k r' =>
    refine keep_at ⟨rfl, rfl, rfl⟩ rfl (by simp) ?_ ?_ (by simp) (.refl rfl) <;>
    · simp only [StarnetMQ.tryEnterGlobal]
      split <;> rfl
  | killMark => exact keep_at ⟨rfl, rfl, rfl⟩ rfl rfl rfl rfl (by simp) (.refl rfl)

theorem wakeStep (step : WakeStep σ e σ') : QueueStep σ e σ' r := by
  cases step with
  | wakeTest | wakeCount | wakeLength | wakeNone =>
    exact keep_srv ⟨rfl, rfl, rfl⟩ rfl (by simp) (.refl rfl)
  | @wakeSignal k w _ waits =>
    have same : Undisturbed σ (σ.setWorker w .woken) r :=
      .setWorker rfl (by simp [waits]) (by simp [waits]) (by simp)
    exact keep_srv ⟨rfl, rfl, rfl⟩ rfl (by simp) ⟨same.process, same.overload⟩

theorem sleepStep (step : SleepStep σ e σ') : QueueStep σ e σ' r := by
  cases step with
  | take h | takeNone h | lockSleep h | condWait h | spurious h | resume h =>
    exact keep_srv ⟨rfl, rfl, rfl⟩ rfl (by simp)
      (.setWorker rfl (by simp [h]) (by simp [h]) (by simp))
  | readExit h =>
    exact keep_srv ⟨rfl, rfl, rfl⟩ rfl (by simp)
      (.setWorker rfl (by simp [h]) (by simp [h]) (by split <;> simp))

theorem turnStep (step : TurnStep σ e σ') : QueueStep σ e σ' r := by
  cases step with
  | readLength h | processDone h | onMsgReturn h | testLive h | testExited h | clearResume h =>
    exact keep_srv ⟨rfl, rfl, rfl⟩ rfl (by simp)
      (.setWorker rfl (by simp [h]) (by simp [h]) (by simp))
  | @processPop w r' i msg h _ popped =>
    by_cases same : r = r'
    · subst same
      exact .pop rfl h popped (by simp [State.modQueue]) rfl
    · exact keep_other (by simp [Event.quiet, Event.pushed, Event.processed, Event.dropped,
        Ne.symm same]) rfl same (by simp)
        (.setWorker rfl (by simp [h, Ne.symm same]) (by simp [h]) (by simp [Ne.symm same]))
  | @processNone w r' i h _ popped =>
    by_cases same : r = r'
    · subst same
      exact .popNone rfl h popped (by simp [State.modQueue]) rfl
    · exact keep_other ⟨rfl, rfl, rfl⟩ rfl same (by simp)
        (.setWorker rfl (by simp [h, Ne.symm same]) (by simp [h]) (by simp))
  | @readOverload w r' i msg h =>
    by_cases same : r = r'
    · subst same
      exact .overload rfl h (by simp [State.modQueue]) rfl
    · exact keep_other ⟨rfl, rfl, rfl⟩ rfl same (by simp [Ne.symm same])
        (.setWorker rfl (by simp [h]) (by simp [h, Ne.symm same]) (by simp))
  | testExiting h | onExitReturn h | clearDone h =>
    exact keep_at ⟨rfl, rfl, rfl⟩ rfl rfl rfl rfl (by simp)
      (.setWorker rfl (by simp [h]) (by simp [h]) (by simp))
  | @finish w r' h =>
    refine keep_at ⟨rfl, rfl, rfl⟩ rfl (by simp) ?_ ?_ (by simp)
      (.setWorker rfl (by simp [h]) (by simp [h]) (by simp)) <;>
    · simp only [StarnetMQ.finishDispatch]
      split <;> rfl
  | @clearDrop w r' msg rest h queue =>
    by_cases same : r = r'
    · subst same
      exact .drop rfl h queue (by simp [State.modQueue]) (.refl rfl)
    · exact keep_other (by simp [Event.quiet, Event.pushed, Event.processed, Event.dropped,
        Ne.symm same]) rfl same (by simp) (.refl rfl)
  | @clearSend w r' msg rest toId err k h queue =>
    have undisturbed : Undisturbed σ (((σ.modQueue r' fun mq => mq.dropFront).setCall k
        (.sendGet toId err)).setWorker w (.clearSend r' k)) r :=
      .setWorker rfl (by simp [h]) (by simp [h]) (by simp)
    by_cases same : r = r'
    · subst same
      exact .drop rfl h queue (by simp [State.modQueue]) undisturbed
    · exact keep_other (by simp [Event.quiet, Event.pushed, Event.processed, Event.dropped,
        Ne.symm same]) rfl same (by simp) undisturbed

theorem mainStep (step : MainStep σ e σ') : QueueStep σ e σ' r := by
  cases step with
  | killAll | killNext | killReturn | setExit =>
    exact keep_srv ⟨rfl, rfl, rfl⟩ rfl (by simp) (.refl rfl)
  | wakeAll =>
    refine keep_srv ⟨rfl, rfl, rfl⟩ rfl (by simp) ⟨fun w i h => ?_, fun w i msg => ?_⟩
    · simp [State.broadcast, h]
    · simp only [State.broadcast]
      split
      · rename_i waits
        simp [waits]
      · exact Iff.rfl

end QueueStep

theorem Step.queueStep (born : Born σ) (step : Step σ e σ') (r : ServiceRef) :
    QueueStep σ e σ' r := by
  cases step with
  | service h => exact .serviceStep born h
  | call h => exact .callStep h
  | wake h => exact .wakeStep h
  | sleep h => exact .sleepStep h
  | turn h => exact .turnStep h
  | main h => exact .mainStep h

/-! ### Messages before `OnMsg` -/

/-- The message that the worker has popped from the queue of `r` and not yet handed to `OnMsg`. -/
def WorkerPc.inHand (r : ServiceRef) : WorkerPc → Option BaseMsg
  | readOverload srv _ msg => if srv = r then some msg else none
  | _ => none

/-- The messages that were pushed to `r` and that `OnMsg` will get, in this order. -/
def State.pending (σ : State n) (r : ServiceRef) : List BaseMsg :=
  ((List.finRange n).findSome? fun w => (σ.worker w).inHand r).toList ++ (σ.srv r).mq.msgQueue

theorem WorkerPc.inHand_eq_some {pc : WorkerPc} {msg : BaseMsg} :
    pc.inHand r = some msg ↔ ∃ i, pc = .readOverload r i msg := by
  cases pc with
  | readOverload srv i msg' => simp [inHand]
  | _ => simp [inHand]

/-- The worker that holds `r` is the one that may have a message of it in hand. -/
theorem Token.inHand_holder (token : Token σ r) {w w' : Fin n}
    (held : (σ.worker w).held = some r) (h : σ.worker w' = .readOverload r i msg) : w' = w :=
  token.unique (by rw [h]; rfl) held

theorem State.pending_of_held (token : Token σ r) {w : Fin n} (h : (σ.worker w).held = some r) :
    σ.pending r = ((σ.worker w).inHand r).toList ++ (σ.srv r).mq.msgQueue := by
  have mine : ∀ w' msg, (σ.worker w').inHand r = some msg → w' = w := by
    intro w' msg inHand
    obtain ⟨i, at'⟩ := WorkerPc.inHand_eq_some.mp inHand
    exact token.inHand_holder h at'
  unfold State.pending
  congr 2
  cases inHand : (σ.worker w).inHand r with
  | none =>
    refine List.findSome?_eq_none_iff.mpr fun w' _ => ?_
    by_contra some'
    obtain ⟨msg, eq⟩ := Option.ne_none_iff_exists'.mp some'
    rw [mine w' msg eq, inHand] at eq
    cases eq
  | some msg =>
    cases found : (List.finRange n).findSome? fun w => (σ.worker w).inHand r with
    | none => exact absurd (List.findSome?_eq_none_iff.mp found w (List.mem_finRange w)) (by simp [inHand])
    | some msg' =>
      obtain ⟨w', -, eq⟩ := List.exists_of_findSome?_eq_some found
      rw [mine w' msg' eq, inHand] at eq
      exact eq.symm

/-- A step that leaves the workers at their calls of `Overload` on `r`. -/
theorem Undisturbed.pending (same : Undisturbed σ σ' r) : σ'.pending r =
    ((List.finRange n).findSome? fun w => (σ.worker w).inHand r).toList ++
      (σ'.srv r).mq.msgQueue := by
  have inHand : (fun w => (σ'.worker w).inHand r) = fun w => (σ.worker w).inHand r := by
    refine funext fun w => Option.ext fun msg => ?_
    simp only [WorkerPc.inHand_eq_some, same.overload]
  rw [State.pending, inHand]

/-- While `r` has not exited, a step hands the first pending message to `OnMsg`, or it leaves the
pending messages where they are and adds the one that it pushes. -/
theorem Step.pending (step : Step σ e σ') (born : Born σ) (token : Token σ r) (token' : Token σ' r)
    (live : (σ.srv r).exited = false) :
    (∃ w i msg, σ.worker w = .readOverload r i msg ∧ σ'.worker w = .onMsg r i msg ∧
      σ.pending r = msg :: σ'.pending r) ∨
    (∀ w i msg, σ.worker w = .readOverload r i msg → σ'.worker w = .readOverload r i msg) ∧
      σ'.pending r = σ.pending r ++ (e.pushed r).toList := by
  cases step.queueStep born r with
  | keep quiet queue _ _ _ same =>
    refine .inr ⟨fun w i msg => (same.overload w i msg).mpr, ?_⟩
    rw [same.pending, queue, quiet.1, Option.toList_none, List.append_nil]
    rfl
  | @push k msg event mq same =>
    subst event
    refine .inr ⟨fun w i msg => (same.overload w i msg).mpr, ?_⟩
    rw [same.pending, mq]
    simp [State.pending, Event.pushed]
  | @pop w i msg event h popped mq worker =>
    subst event
    have at' : σ'.worker w = .readOverload r i msg := by rw [worker, Function.update_self]
    have held : (σ.worker w).held = some r := by rw [h]; rfl
    refine .inr ⟨fun w' i' msg' h' => ?_, ?_⟩
    · rw [token.inHand_holder held h', h] at h'
      cases h'
    · rw [State.pending_of_held token' (w := w) (by rw [at']; rfl),
        State.pending_of_held token held, at', h, mq, StarnetMQ.pop_some popped]
      simp [WorkerPc.inHand, Event.pushed]
  | @popNone w i event h popped mq worker =>
    subst event
    obtain ⟨before, after⟩ := StarnetMQ.pop_none popped
    have at' : σ'.worker w = .testExiting r := by rw [worker, Function.update_self]
    have held : (σ.worker w).held = some r := by rw [h]; rfl
    refine .inr ⟨fun w' i' msg' h' => ?_, ?_⟩
    · rw [token.inHand_holder held h', h] at h'
      cases h'
    · rw [State.pending_of_held token' (w := w) (by rw [at']; rfl),
        State.pending_of_held token held, at', h, mq, before, after]
      rfl
  | @overload w i msg event h mq worker =>
    have at' : σ'.worker w = .onMsg r i msg := by rw [worker, Function.update_self]
    refine .inl ⟨w, i, msg, h, at', ?_⟩
    rw [State.pending_of_held token' (w := w) (by rw [at']; rfl),
      State.pending_of_held token (w := w) (by rw [h]; rfl), at', h, mq]
    simp [WorkerPc.inHand]
  | @drop w msg rest event h =>
    have exited := (token.phase w (by rw [h]; rfl)).mp (by rw [h]; rfl)
    exact absurd (live.symm.trans exited) (by decide)

/-! ### Turns -/

/-- The worker holds `r` and is about to read the length of its queue, or is about to call
`Pop`. -/
def WorkerPc.popsNext (r : ServiceRef) : WorkerPc → Prop
  | readLength srv => srv = r
  | process srv rounds => srv = r ∧ 0 < rounds
  | _ => False

/-- The event is the start of a turn with service `r`. -/
def Event.takes (r : ServiceRef) : Event n → Bool
  | .take _ srv => srv = r
  | _ => false

/-- What the turns of the run from `σ` to `σ'` with the events `tr` make of the first message of
each queue. A worker that takes the service processes it before it gets past its calls of `Pop`,
and when two turns with the service have started, it is processed. -/
def TurnsProgress (σ : State n) (tr : List (Event n)) (σ' : State n) : Prop :=
  ∀ r msg rest, (σ.srv r).mq.msgQueue = msg :: rest →
    (∀ w later, tr = .take w r :: later →
      .process w r msg ∈ later ∨ (σ'.worker w).popsNext r) ∧
    (2 ≤ tr.countP (Event.takes r) → ∃ w, .process w r msg ∈ tr)

/-- A worker that reads the length of a queue with messages finds at least `2 ^ weight` of them,
unless its weight is negative. -/
def ReadsEnough (σ : State n) (_ : Event n) (σ' : State n) : Prop :=
  ∀ w r, σ.worker w = .readLength r → σ'.worker w ≠ .readLength r →
    (σ.srv r).mq.msgQueue ≠ [] →
      weight w < 0 ∨ 2 ^ (weight w).toNat ≤ (σ.srv r).mq.length

/-- A turn processes no message when the queue is shorter than `2 ^ weight`. -/
theorem batch_pos {weight : Int} {length : Nat} :
    0 < batch weight length ↔ weight < 0 ∨ 2 ^ weight.toNat ≤ length := by
  unfold batch
  split
  · rename_i nonneg
    rw [Nat.shiftRight_eq_div_pow, Nat.div_pos_iff]
    have pos : 0 < 2 ^ weight.toNat := Nat.two_pow_pos _
    constructor
    · exact fun h => Or.inr h.2
    · rintro (negative | enough)
      · omega
      · exact ⟨pos, enough⟩
  · rename_i negative
    exact ⟨fun _ => Or.inl (by omega), fun _ => Nat.one_pos⟩

theorem State.eq_of_moves {τ : State n} {w w' : Fin n} {pc : WorkerPc}
    (worker : τ.worker = σ.worker) (moves : (τ.setWorker w' pc).worker w ≠ σ.worker w) :
    w = w' := by
  by_contra ne
  rw [State.setWorker_worker_other _ _ _ ne, worker] at moves
  exact moves rfl

/-- A worker that holds a service moves only in its turn. -/
theorem Step.turnStep_of_moves (step : Step σ e σ') {w : Fin n}
    (held : (σ.worker w).held ≠ none) (moves : σ'.worker w ≠ σ.worker w) : TurnStep σ e σ' := by
  have idle : ∀ {τ : State n} {w' : Fin n} {pc pc' : WorkerPc}, τ.worker = σ.worker →
      σ.worker w' = pc → pc.held = none → (τ.setWorker w' pc').worker w = σ.worker w := by
    intro τ w' pc pc' worker h none
    by_contra moves
    cases State.eq_of_moves worker moves
    rw [h] at held
    exact held none
  cases step with
  | service step => cases step <;> exact absurd rfl moves
  | call step => cases step <;> exact absurd rfl moves
  | wake step =>
    cases step with
    | wakeTest | wakeCount | wakeLength | wakeNone => exact absurd rfl moves
    | wakeSignal _ waits => exact absurd (idle rfl waits rfl) moves
  | sleep step =>
    cases step with
    | take h | takeNone h | readExit h | lockSleep h | condWait h | spurious h | resume h =>
      exact absurd (idle rfl h rfl) moves
  | turn step => exact step
  | main step =>
    cases step with
    | killAll | killNext | killReturn | setExit => exact absurd rfl moves
    | wakeAll =>
      simp only [State.broadcast] at moves
      split at moves
      · rename_i waits
        rw [waits] at held
        exact absurd rfl held
      · exact absurd rfl moves

/-- A worker that is about to read the length of the queue goes on with the batch. -/
theorem Step.worker_readLength (step : Step σ e σ') {w : Fin n} (h : σ.worker w = .readLength r) :
    σ'.worker w = .readLength r ∨
      σ'.worker w = .process r (batch (weight w) (σ.srv r).mq.length) := by
  by_cases moves : σ'.worker w = σ.worker w
  · exact Or.inl (moves.trans h)
  · have turn := step.turnStep_of_moves (by rw [h]; exact nofun) moves
    cases turn with
    | @readLength w' r' h' =>
      cases State.eq_of_moves rfl moves
      cases h.symm.trans h'
      exact Or.inr (State.setWorker_worker_same ..)
    | processDone h' | processPop h' | processNone h' | readOverload h' | onMsgReturn h'
    | testLive h' | testExiting h' | testExited h' | finish h' | onExitReturn h' | clearSend h'
    | clearResume h' | clearDone h' =>
      cases State.eq_of_moves rfl moves
      cases h.symm.trans h'
    | clearDrop => exact absurd rfl moves

/-- Worker `w` holds `r`, is about to pop, and will pop `msg`. -/
structure PopsFirst (σ : State n) (w : Fin n) (r : ServiceRef) (msg : BaseMsg) : Prop where
  worker : (σ.worker w).popsNext r
  front : ∃ rest, (σ.srv r).mq.msgQueue = msg :: rest

theorem WorkerPc.held_of_popsNext {pc : WorkerPc} (h : pc.popsNext r) : pc.held = some r := by
  cases pc with
  | readLength srv => exact congrArg some h
  | process srv rounds => exact congrArg some h.1
  | _ => cases h

variable {w : Fin n} {msg : BaseMsg}

/-- Until it pops the first message the worker stays before its calls of `Pop`, and nothing is
taken from the queue. -/
theorem PopsFirst.step (h : PopsFirst σ w r msg) (born : Born σ) (token : Token σ r)
    (step : Step σ e σ') (enough : ReadsEnough σ e σ') :
    e = .process w r msg ∨ PopsFirst σ' w r msg := by
  obtain ⟨rest, queue⟩ := h.front
  have held := WorkerPc.held_of_popsNext h.worker
  have mine : ∀ {w' pc}, σ.worker w' = pc → pc.held = some r → σ.worker w = pc := by
    intro w' pc at' holds
    rw [token.unique held (by rw [at', holds]), at']
  -- what the worker does when it does not pop
  have worker : (∀ i, σ.worker w = .process r (i + 1) → σ'.worker w = .process r (i + 1)) →
      (σ'.worker w).popsNext r := by
    intro stays
    have next := h.worker
    cases pc : σ.worker w with
    | readLength srv =>
      rw [pc] at next
      cases next
      rcases step.worker_readLength pc with same | batch
      · rw [same]
        rfl
      · rw [batch]
        refine ⟨rfl, batch_pos.mpr (enough w r pc ?_ ?_)⟩
        · rw [batch]
          exact nofun
        · rw [queue]
          exact List.cons_ne_nil _ _
    | process srv rounds =>
      rw [pc] at next
      obtain ⟨rfl, pos⟩ := next
      obtain ⟨i, rfl⟩ := Nat.exists_eq_succ_of_ne_zero pos.ne'
      rw [stays i pc]
      exact ⟨rfl, Nat.succ_pos i⟩
    | _ =>
      rw [pc] at next
      cases next
  cases step.queueStep born r with
  | keep _ same _ _ _ undisturbed =>
    exact Or.inr ⟨worker (undisturbed.process w), rest, same.trans queue⟩
  | @push k msg' _ mq undisturbed =>
    exact Or.inr ⟨worker (undisturbed.process w), rest ++ [msg'], by rw [mq]; simp [queue]⟩
  | @pop w' i msg' event at' popped =>
    have front := StarnetMQ.pop_some popped
    rw [queue] at front
    obtain ⟨rfl, -⟩ := List.cons.inj front
    have popper : (σ.worker w').held = some r := by rw [at']; rfl
    cases token.unique held popper
    exact Or.inl event
  | popNone _ _ popped =>
    have empty := (StarnetMQ.pop_none popped).1
    rw [queue] at empty
    contradiction
  | overload _ at' =>
    have next := h.worker
    rw [mine at' rfl] at next
    cases next
  | drop _ at' =>
    have next := h.worker
    rw [mine at' rfl] at next
    cases next

theorem Step.take_inv (step : Step σ (.take w r) σ') :
    (∃ rest, σ.globalQueue = r :: rest) ∧ σ'.worker w = .readLength r ∧ σ'.srv = σ.srv := by
  cases step with
  | sleep step =>
    cases step with
    | take _ queue => exact ⟨⟨_, queue⟩, State.setWorker_worker_same .., rfl⟩
  | service step | call step | wake step | turn step | main step => cases step

/-- The worker that takes `r` will pop the front message of its queue. -/
theorem PopsFirst.take (step : Step σ (.take w r) σ')
    (front : ∃ rest, (σ.srv r).mq.msgQueue = msg :: rest) : PopsFirst σ' w r msg := by
  obtain ⟨-, worker, srv⟩ := step.take_inv
  refine ⟨?_, by rwa [srv]⟩
  rw [worker]
  rfl

/-- A service that is held or has exited is not in the global queue. -/
theorem not_take (token : Token σ r) (step : Step σ e σ')
    (h : (σ.srv r).exited = true ∨ ∃ w, (σ.worker w).popsNext r) : e.takes r = false := by
  by_contra takes
  cases e with
  | take w srv =>
    obtain rfl : srv = r := by simpa [Event.takes] using takes
    obtain ⟨rest, queue⟩ := step.take_inv.1
    have absent : σ.globalQueue.count srv = 0 := by
      rcases h with exited | ⟨w', next⟩
      · exact (token.dead exited).1
      · have held := WorkerPc.held_of_popsNext next
        refine (token.of_held held (token.not_exited held ?_)).1
        cases pc : σ.worker w' <;> rw [pc] at next <;> first | rfl | cases next
    simp [queue] at absent
  | _ => exact takes rfl

/-- What becomes of the first message `msg` of `r`: it is processed, or no turn with `r` has
started, or one has and its worker is about to pop `msg`. -/
inductive Handled (σ : State n) (tr : List (Event n)) (r : ServiceRef) (msg : BaseMsg) : Prop
  | processed (w : Fin n) (h : .process w r msg ∈ tr)
  | waits (none : tr.countP (Event.takes r) = 0)
      (front : (∃ rest, (σ.srv r).mq.msgQueue = msg :: rest) ∨ (σ.srv r).exited = true)
  | taken (w : Fin n) (one : tr.countP (Event.takes r) = 1) (next : PopsFirst σ w r msg)

namespace Handled

theorem countP_concat : (tr ++ [e]).countP (Event.takes r) =
    tr.countP (Event.takes r) + if e.takes r then 1 else 0 := by
  simp [List.countP_append, List.countP_cons]

/-- The front message stays in front, is processed, or is dropped by the exit path. -/
theorem waitsStep {rest : List BaseMsg} (none : tr.countP (Event.takes r) = 0)
    (queue : (σ.srv r).mq.msgQueue = msg :: rest) (born : Born σ) (token : Token σ r)
    (step : Step σ e σ') (takes : e.takes r = false) : Handled σ' (tr ++ [e]) r msg := by
  have count : (tr ++ [e]).countP (Event.takes r) = 0 := by
    rw [countP_concat, none, takes]
    rfl
  cases step.queueStep born r with
  | keep _ same => exact .waits count (Or.inl ⟨rest, same.trans queue⟩)
  | @push k msg' _ mq =>
    exact .waits count (Or.inl ⟨rest ++ [msg'], by rw [mq]; simp [queue]⟩)
  | @pop w i msg' event _ popped =>
    have front := StarnetMQ.pop_some popped
    rw [queue] at front
    obtain ⟨rfl, -⟩ := List.cons.inj front
    exact .processed w (by simp [event])
  | popNone _ _ popped =>
    have empty := (StarnetMQ.pop_none popped).1
    rw [queue] at empty
    contradiction
  | overload _ _ mq => exact .waits count (Or.inl ⟨rest, by rw [mq]; simpa using queue⟩)
  | drop _ at' =>
    have exited := (token.phase _ (by rw [at']; rfl)).mp (by rw [at']; rfl)
    exact .waits count (Or.inr ((step.grows born r).exited exited))

theorem step (h : Handled σ tr r msg) (born : Born σ) (token : Token σ r) (step : Step σ e σ')
    (enough : ReadsEnough σ e σ') : Handled σ' (tr ++ [e]) r msg := by
  cases h with
  | processed w mem => exact .processed w (List.mem_append_left _ mem)
  | waits none front =>
    rcases front with ⟨rest, queue⟩ | exited
    · cases takes : e.takes r with
      | false => exact waitsStep none queue born token step takes
      | true =>
        cases e with
        | take w srv =>
          obtain rfl : srv = r := by simpa [Event.takes] using takes
          refine .taken w ?_ (.take step ⟨rest, queue⟩)
          rw [countP_concat, none, takes]
          rfl
        | _ => cases takes
    · refine .waits ?_ (Or.inr ((step.grows born r).exited exited))
      rw [countP_concat, none, not_take token step (Or.inl exited)]
      rfl
  | taken w one next =>
    rcases next.step born token step enough with rfl | next'
    · exact .processed w (by simp)
    · refine .taken w ?_ next'
      rw [countP_concat, one, not_take token step (Or.inr ⟨w, next.worker⟩)]
      rfl

end Handled

end Starnet.Core
