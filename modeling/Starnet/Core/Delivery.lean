import Starnet.Core.Token

/-! Delivery of messages. For each service the messages that workers took, the messages that the
exit path dropped and the messages still queued are together, in this order, the messages pushed to
it. While messages are queued, the service is scheduled or a sender is about to schedule it. -/

namespace Starnet.Core

open Transition

variable {n : Nat}

/-! ### What a trace says of one service -/

namespace Event

def pushed (r : ServiceRef) : Event n → Option BaseMsg
  | push _ r' msg => if r' = r then some msg else none
  | _ => none

def processed (r : ServiceRef) : Event n → Option BaseMsg
  | process _ r' msg => if r' = r then some msg else none
  | _ => none

def dropped (r : ServiceRef) : Event n → Option BaseMsg
  | drop _ r' msg => if r' = r then some msg else none
  | _ => none

/-- The event says nothing of the messages of `r`. -/
def quiet (r : ServiceRef) (e : Event n) : Prop :=
  e.pushed r = none ∧ e.processed r = none ∧ e.dropped r = none

end Event

/-- The messages pushed to `r`, in the order of the calls of `Push`. -/
def pushed (r : ServiceRef) (tr : List (Event n)) : List BaseMsg := tr.filterMap (Event.pushed r)

/-- The messages of `r` that `ProcessMsg` took from the queue and handed to `OnMsg`. -/
def processed (r : ServiceRef) (tr : List (Event n)) : List BaseMsg :=
  tr.filterMap (Event.processed r)

/-- The messages of `r` that `Clear` passed to `dropMessage`. -/
def dropped (r : ServiceRef) (tr : List (Event n)) : List BaseMsg :=
  tr.filterMap (Event.dropped r)

section

variable {r : ServiceRef} {tr : List (Event n)} {e : Event n}

theorem pushed_concat : pushed r (tr ++ [e]) = pushed r tr ++ (e.pushed r).toList := by
  cases h : e.pushed r <;> simp [pushed, h]

theorem processed_concat :
    processed r (tr ++ [e]) = processed r tr ++ (e.processed r).toList := by
  cases h : e.processed r <;> simp [processed, h]

theorem dropped_concat : dropped r (tr ++ [e]) = dropped r tr ++ (e.dropped r).toList := by
  cases h : e.dropped r <;> simp [dropped, h]

/-- A pushed message comes from an event of its own. -/
theorem push_of_mem_pushed {msg : BaseMsg} (mem : msg ∈ pushed r tr) :
    ∃ k, .push k r msg ∈ tr := by
  obtain ⟨e, event, eq⟩ := List.mem_filterMap.mp mem
  cases e with
  | push k r' msg' =>
    obtain ⟨rfl, rfl⟩ : r' = r ∧ msg' = msg := by simpa [Event.pushed] using eq
    exact ⟨k, event⟩
  | _ => cases eq

end

/-! ### The ledger of a service -/

/-- Every message pushed to `r` is processed, dropped or queued, in the order of the pushes; nothing
is dropped before the exit path. -/
structure Ledger (σ : State n) (tr : List (Event n)) (r : ServiceRef) : Prop where
  balance : processed r tr ++ dropped r tr ++ (σ.srv r).mq.msgQueue = pushed r tr
  late : (σ.srv r).exited = false → dropped r tr = []

namespace Ledger

variable {σ σ' : State n} {tr : List (Event n)} {e : Event n} {r : ServiceRef}

theorem initial (r : ServiceRef) : Ledger (State.initial n) [] r :=
  ⟨rfl, fun _ => rfl⟩

theorem keep (l : Ledger σ tr r) (quiet : e.quiet r)
    (queue : (σ'.srv r).mq.msgQueue = (σ.srv r).mq.msgQueue)
    (exited : (σ'.srv r).exited = false → (σ.srv r).exited = false) :
    Ledger σ' (tr ++ [e]) r := by
  obtain ⟨h1, h2, h3⟩ := quiet
  constructor
  · rw [processed_concat, dropped_concat, pushed_concat, h1, h2, h3, queue]
    simpa using l.balance
  · intro live
    rw [dropped_concat, h3, l.late (exited live)]
    rfl

theorem keep_srv (l : Ledger σ tr r) (quiet : e.quiet r) (srv : σ'.srv = σ.srv) :
    Ledger σ' (tr ++ [e]) r :=
  l.keep quiet (by rw [srv]) (by rw [srv]; exact id)

/-- A step that replaces service `r'` and keeps its queue. -/
theorem keep_at (l : Ledger σ tr r) (quiet : e.quiet r) {r' : ServiceRef} {s : Service}
    (srv : σ'.srv = Function.update σ.srv r' s)
    (queue : s.mq.msgQueue = (σ.srv r').mq.msgQueue)
    (exited : s.exited = false → (σ.srv r').exited = false) : Ledger σ' (tr ++ [e]) r := by
  by_cases same : r = r'
  · subst same
    refine l.keep quiet ?_ ?_ <;> rw [srv, Function.update_self] <;> assumption
  · refine l.keep quiet ?_ ?_ <;> rw [srv, Function.update_of_ne same]
    exact id

/-- A step that replaces another service. -/
theorem keep_other (l : Ledger σ tr r) (quiet : e.quiet r) {r' : ServiceRef} {s : Service}
    (srv : σ'.srv = Function.update σ.srv r' s) (ne : r ≠ r') : Ledger σ' (tr ++ [e]) r := by
  refine l.keep quiet ?_ ?_ <;> rw [srv, Function.update_of_ne ne]
  exact id

theorem quiet_tau : (Event.tau : Event n).quiet r := ⟨rfl, rfl, rfl⟩

theorem tryEnterGlobal (l : Ledger σ tr r) (r' : ServiceRef) (k : Nat) (pc : CallPc) :
    Ledger ((σ.tryEnterGlobal r').setCall k pc) (tr ++ [.tau]) r :=
  l.keep_at quiet_tau rfl (by simp) id

theorem push (l : Ledger σ tr r) (k : Nat) (r' : ServiceRef) (msg : BaseMsg) (pc : CallPc) :
    Ledger ((σ.modQueue r' fun mq => mq.push msg).setCall k pc) (tr ++ [.push k r' msg]) r := by
  by_cases same : r = r'
  · subst same
    constructor
    · rw [processed_concat, dropped_concat, pushed_concat, ← l.balance]
      simp [Event.processed, Event.dropped, Event.pushed, State.modQueue]
    · intro live
      rw [dropped_concat, l.late (by simpa [State.modQueue] using live)]
      rfl
  · exact l.keep_other (by simp [Event.quiet, Event.pushed, Event.processed, Event.dropped,
      Ne.symm same]) rfl same

/-- A worker processes the front message. The service has not exited, so nothing was dropped. -/
theorem process (l : Ledger σ tr r) (t : Token σ r) {w : Fin n} {r' : ServiceRef} {i : Nat}
    {msg : BaseMsg} (h : σ.worker w = .process r' (i + 1))
    (popped : (σ.srv r').mq.pop.1 = some msg) (pc : WorkerPc) :
    Ledger ((σ.modQueue r' fun mq => mq.pop.2).setWorker w pc) (tr ++ [.process w r' msg]) r := by
  by_cases same : r = r'
  · subst same
    have empty := l.late (t.not_exited (by rw [h]; rfl) (by rw [h]; rfl))
    constructor
    · rw [processed_concat, dropped_concat, pushed_concat, ← l.balance, empty,
        StarnetMQ.pop_some popped]
      simp [Event.processed, Event.dropped, Event.pushed, State.modQueue]
    · intro _
      rw [dropped_concat, empty]
      rfl
  · exact l.keep_other (by simp [Event.quiet, Event.pushed, Event.processed, Event.dropped,
      Ne.symm same]) rfl same

/-- The exit path drops the front message. -/
theorem drop (l : Ledger σ tr r) (t : Token σ r) {w : Fin n} {r' : ServiceRef} {msg : BaseMsg}
    {rest : List BaseMsg} (h : σ.worker w = .clear r')
    (queue : (σ.srv r').mq.msgQueue = msg :: rest)
    (srv : σ'.srv = Function.update σ.srv r'
      { σ.srv r' with mq := (σ.srv r').mq.dropFront }) :
    Ledger σ' (tr ++ [.drop w r' msg]) r := by
  by_cases same : r = r'
  · subst same
    have exited := (t.phase w (by rw [h]; rfl)).mp (by rw [h]; rfl)
    constructor
    · rw [processed_concat, dropped_concat, pushed_concat, ← l.balance, srv, queue]
      simp [Event.processed, Event.dropped, Event.pushed, queue]
    · intro live
      rw [srv] at live
      simp [exited] at live
  · exact l.keep_other (by simp [Event.quiet, Event.pushed, Event.processed, Event.dropped,
      Ne.symm same]) srv same

theorem serviceStep (l : Ledger σ tr r) (born : Born σ) (step : ServiceStep σ e σ') :
    Ledger σ' (tr ++ [e]) r := by
  cases step with
  | newService =>
    by_cases same : r = σ.nextRef
    · subst same
      refine l.keep ⟨rfl, rfl, rfl⟩ ?_ ?_ <;> simp [State.newService, born.srv σ.nextRef le_rfl]
    · refine l.keep ⟨rfl, rfl, rfl⟩ ?_ ?_ <;> simp [State.newService, Function.update_of_ne same]
  | onInit | onInitReturn => exact l.keep_at quiet_tau rfl rfl id
  | nameService => exact l.keep_srv quiet_tau rfl

theorem callStep (l : Ledger σ tr r) (step : CallStep σ e σ') : Ledger σ' (tr ++ [e]) r := by
  cases step with
  | send | sendFound | sendMissed | kill | killFound | killMissed | killRead | killErase
  | killName => exact l.keep_srv ⟨rfl, rfl, rfl⟩ rfl
  | sendPush => exact l.push _ _ _ _
  | sendEnter | killEnter => exact l.tryEnterGlobal _ _ _
  | killMark => exact l.keep_at quiet_tau rfl rfl id

theorem turnStep (l : Ledger σ tr r) (t : Token σ r) (step : TurnStep σ e σ') :
    Ledger σ' (tr ++ [e]) r := by
  cases step with
  | readLength | processDone | onMsgReturn | testLive | testExited | clearResume =>
    exact l.keep_srv quiet_tau rfl
  | processPop h _ popped => exact l.process t h popped _
  | @processNone w r' i h _ popped =>
    obtain ⟨before, after⟩ := StarnetMQ.pop_none popped
    exact l.keep_at quiet_tau rfl (after.trans before.symm) id
  | readOverload | onExitReturn | clearDone =>
    exact l.keep_at ⟨rfl, rfl, rfl⟩ rfl rfl id
  | testExiting => exact l.keep_at ⟨rfl, rfl, rfl⟩ rfl rfl (by simp)
  | finish => exact l.keep_at quiet_tau rfl (by simp) id
  | clearDrop h queue => exact l.drop t h queue rfl
  | clearSend h queue => exact l.drop t h queue rfl

theorem step (l : Ledger σ tr r) (born : Born σ) (t : Token σ r) (step : Step σ e σ') :
    Ledger σ' (tr ++ [e]) r := by
  cases step with
  | service h => exact l.serviceStep born h
  | call h => exact l.callStep h
  | wake h => cases h <;> exact l.keep_srv ⟨rfl, rfl, rfl⟩ rfl
  | sleep h => cases h <;> exact l.keep_srv ⟨rfl, rfl, rfl⟩ rfl
  | turn h => exact l.turnStep t h
  | main h => cases h <;> exact l.keep_srv ⟨rfl, rfl, rfl⟩ rfl

theorem run (run : (node n).Run σ tr) (r : ServiceRef) : Ledger σ tr r :=
  run.invariant (P := fun σ tr => Ledger σ tr r) (fun _ h => h ▸ initial r)
    fun _ _ _ _ run l step => l.step (Born.run run) (Token.run run r) step

end Ledger

/-! ### Pending messages are scheduled -/

/-- A service with queued messages is in the global queue or held by a worker, or the sender of one
of them has yet to run `TryEnterGlobal`. -/
def Scheduled (σ : State n) (r : ServiceRef) : Prop :=
  (σ.srv r).mq.msgQueue ≠ [] → (σ.srv r).mq.inGlobal = true ∨ ∃ k, σ.call k = .sendEnter r

namespace Scheduled

variable {σ σ' : State n} {e : Event n} {r : ServiceRef}

theorem keep (s : Scheduled σ r)
    (queue : (σ'.srv r).mq.msgQueue ≠ [] → (σ.srv r).mq.msgQueue ≠ [])
    (inGlobal : (σ.srv r).mq.inGlobal = true → (σ'.srv r).mq.inGlobal = true)
    (call : ∀ k, σ.call k = .sendEnter r → σ'.call k = .sendEnter r) : Scheduled σ' r := by
  intro pending
  rcases s (queue pending) with inside | ⟨k, hk⟩
  · exact .inl (inGlobal inside)
  · exact .inr ⟨k, call k hk⟩

/-- A step of call `k` that is not at `TryEnterGlobal` for `r`. -/
theorem keep_setCall (s : Scheduled σ r) {k : Nat} {pc : CallPc} (h : σ.call k ≠ .sendEnter r) :
    Scheduled (σ.setCall k pc) r := by
  refine s.keep id id fun k' hk' => ?_
  have ne : k' ≠ k := by
    rintro rfl
    exact h hk'
  rwa [State.setCall_call_other _ _ _ ne]

/-- A step that replaces service `r'` and neither adds a message nor resets `inGlobal`. -/
theorem keep_at (s : Scheduled σ r) (r' : ServiceRef) {new : Service}
    (srv : σ'.srv = Function.update σ.srv r' new) (call : σ'.call = σ.call)
    (queue : new.mq.msgQueue ≠ [] → (σ.srv r').mq.msgQueue ≠ [])
    (inGlobal : (σ.srv r').mq.inGlobal = true → new.mq.inGlobal = true) : Scheduled σ' r := by
  by_cases same : r = r'
  · subst same
    refine s.keep ?_ ?_ (by simp [call]) <;> rw [srv, Function.update_self] <;> assumption
  · refine s.keep ?_ ?_ (by simp [call]) <;> rw [srv, Function.update_of_ne same] <;> exact id

theorem enter (s : Scheduled σ r) {k : Nat} {r' : ServiceRef} {pc : CallPc}
    (h : (σ.call k).target = some r') : Scheduled ((σ.tryEnterGlobal r').setCall k pc) r := by
  by_cases same : r = r'
  · subst same
    intro _
    left
    simp [State.tryEnterGlobal, State.modQueue, State.modService]
  · have entered : Scheduled (σ.tryEnterGlobal r') r :=
      s.keep_at r' rfl rfl (by simp) (by simp)
    refine entered.keep_setCall fun hk => same ?_
    have target : (σ.call k).target = some r := by
      rw [show σ.call k = .sendEnter r from hk]
      rfl
    exact Option.some.inj (target.symm.trans h)

theorem serviceStep (s : Scheduled σ r) (step : ServiceStep σ e σ') : Scheduled σ' r := by
  cases step with
  | newService =>
    intro pending
    by_cases same : r = σ.nextRef
    · subst same
      simp [State.newService] at pending
    · simp only [State.newService, Function.update_of_ne same] at pending ⊢
      exact s pending
  | onInit | onInitReturn => exact s.keep_at _ rfl rfl id id
  | nameService => exact s

theorem callStep (s : Scheduled σ r) (step : CallStep σ e σ') : Scheduled σ' r := by
  cases step with
  | send _ _ h | sendFound h | sendMissed h | kill _ h | killFound h | killMissed h | killRead h =>
    exact s.keep_setCall (by simp [h])
  | @sendPush k r' msg h =>
    by_cases same : r = r'
    · subst same
      exact fun _ => .inr ⟨k, by simp⟩
    · have pushed : Scheduled (σ.modQueue r' fun mq => mq.push msg) r := by
        refine s.keep ?_ ?_ fun _ => id <;>
          simp [State.modQueue, State.modService_srv_other _ _ _ same]
      exact pushed.keep_setCall (by simp [State.modQueue, h])
  | sendEnter h | killEnter h => exact s.enter (by rw [h]; rfl)
  | killErase h | killName h | killMark h =>
    refine Scheduled.keep_setCall ?_ ?_
    · first
      | exact s
      | exact s.keep_at _ rfl rfl id id
    · show σ.call _ ≠ _
      simp [h]

theorem turnStep (s : Scheduled σ r) (step : TurnStep σ e σ') : Scheduled σ' r := by
  cases step with
  | readLength | processDone | onMsgReturn | testLive | testExited | clearResume => exact s
  | processPop _ _ popped =>
    refine s.keep_at _ rfl rfl (fun _ => ?_) (by simp)
    rw [StarnetMQ.pop_some popped]
    exact List.cons_ne_nil _ _
  | processNone _ _ popped =>
    exact s.keep_at _ rfl rfl (fun pending => absurd (StarnetMQ.pop_none popped).2 pending) (by simp)
  | readOverload | testExiting | onExitReturn | clearDone => exact s.keep_at _ rfl rfl id id
  | @finish w r' =>
    by_cases empty : (σ.srv r').mq.msgQueue = []
    · rw [State.finishDispatch_empty empty]
      by_cases same : r = r'
      · subst same
        intro pending
        simp [State.modQueue, empty] at pending
      · refine s.keep ?_ ?_ fun _ => id <;>
          simp [State.modQueue, State.modService_srv_other _ _ _ same]
    · rw [State.finishDispatch_nonempty empty]
      exact s
  | clearDrop _ queue =>
    exact s.keep_at _ rfl rfl (fun _ => by rw [queue]; exact List.cons_ne_nil _ _) id
  | @clearSend w r' msg rest toId err k h queue answer idle =>
    have dropped : Scheduled (σ.modQueue r' fun mq => mq.dropFront) r :=
      s.keep_at r' rfl rfl (fun _ => by rw [queue]; exact List.cons_ne_nil _ _) id
    exact dropped.keep_setCall (k := k) (by simp [State.modQueue, idle])

theorem step (s : Scheduled σ r) (step : Step σ e σ') : Scheduled σ' r := by
  cases step with
  | service h => exact s.serviceStep h
  | call h => exact s.callStep h
  | wake h =>
    cases h with
    | wakeTest h | wakeCount h | wakeLength h | wakeNone h => exact s.keep_setCall (by simp [h])
    | wakeSignal h =>
      exact Scheduled.keep_setCall (σ := σ.setWorker _ _) s (by simp [h])
  | sleep h => cases h <;> exact s
  | turn h => exact s.turnStep h
  | main h =>
    cases h with
    | killNext _ idle => exact Scheduled.keep_setCall (σ := { σ with main := _ }) s (by simp [idle])
    | killAll | killReturn | setExit | wakeAll => exact s

theorem run {tr : List (Event n)} (run : (node n).Run σ tr) (r : ServiceRef) : Scheduled σ r :=
  run.stateInvariant (P := fun σ => Scheduled σ r)
    (fun _ h => h ▸ fun pending => absurd rfl pending) fun _ _ _ s step => s.step step

end Scheduled

/-! ### Delivery -/

/-- A service that is not being killed has one scheduling token while `inGlobal` is true and none
otherwise, is scheduled while it has messages unless a sender is about to schedule it, and its
messages are processed in the order in which they were pushed, each once. -/
theorem fifo_of_live {σ : State n} {tr : List (Event n)} (run : (node n).Run σ tr)
    (r : ServiceRef) (live : (σ.srv r).isExiting = false) :
    σ.globalQueue.count r + σ.holders r = (if (σ.srv r).mq.inGlobal then 1 else 0) ∧
      ((σ.srv r).mq.msgQueue ≠ [] →
        (σ.srv r).mq.inGlobal = true ∨ ∃ k, σ.call k = .sendEnter r) ∧
      processed r tr ++ (σ.srv r).mq.msgQueue = pushed r tr := by
  have stays : (σ.srv r).exited = false := by
    by_contra exited
    have marked := isExiting_of_exited run r (by simpa using exited)
    rw [live] at marked
    contradiction
  refine ⟨(Token.run run r).live stays, Scheduled.run run r, ?_⟩
  have ledger := Ledger.run run r
  have balance := ledger.balance
  rwa [ledger.late stays, List.append_nil] at balance

/-- A worker processes the first of two requests. -/
theorem fifo_of_two_requests : ∃ (σ : State 1) (tr : List (Event 1)), (node 1).Run σ tr ∧
    σ.holders 0 = 1 ∧ processed 0 tr = [request 1] ∧ (σ.srv 0).mq.msgQueue = [request 2] ∧
    processed 0 tr ++ (σ.srv 0).mq.msgQueue = pushed 0 tr := by
  have h0 : (node 1).Run _ _ := .init rfl
  have h1 := h0.step (.service (.newService _))
  have h2 := h1.step (.service (.onInit (r := 0) rfl))
  have h3 := h2.step (.service (.onInitReturn (r := 0) rfl))
  have h4 := h3.step (.call (.send (k := 0) 1 (request 1) rfl))
  have h5 := h4.step (.call (.sendFound (k := 0) (r := 0) rfl rfl))
  have h6 := h5.step (.call (.sendPush (k := 0) rfl rfl))
  have h7 := h6.step (.call (.sendEnter (k := 0) rfl))
  have h8 := h7.step (.sleep (.take (w := 0) (r := 0) rfl rfl))
  have h9 := h8.step (.call (.send (k := 1) 1 (request 2) rfl))
  have h10 := h9.step (.call (.sendFound (k := 1) (r := 0) rfl rfl))
  have h11 := h10.step (.call (.sendPush (k := 1) rfl rfl))
  have h12 := h11.step (.turn (.readLength (w := 0) rfl rfl))
  have h13 := h12.step (.turn (.processPop (w := 0) (i := 0) rfl rfl rfl))
  exact ⟨_, _, h13, rfl, rfl, rfl, (fifo_of_live h13 0 rfl).2.2⟩

end Starnet.Core
