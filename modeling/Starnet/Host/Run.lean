import Starnet.Host.Reply

/-! Steps and runs of the host library: what a step can be, the invariant of its state, and which
steps send, store a coroutine or call `Genid`. -/

namespace Starnet.Host

/-- The invariant of the library. -/
structure Good (h : Host) : Prop where
  placed : Placed h
  tasks : Tasks h
  replies : Replies h

variable {self : UInt32} {h h' : Host} {co : Nat} {task : Task} {forks : Bool}

/-- What a step of the library can be. -/
theorem step_cases {dispatch : UInt8 → Bool} {op : Op} (taken : h.step self dispatch op = some h') :
    (∃ type session source, h.control = .idle ∧ op = .message type session source ∧
      h' = h.rawDispatchMessage dispatch type session source) ∨
    (h.control = .idle ∧ op = .socket ∧ h' = h.dispatchInCoroutine) ∨
    (h.control = .forks ∧ op = .nextFork ∧ h' = h.nextFork) ∨
    ∃ co forks task a, h.control = .running co forks ∧ h.status co = .running task ∧ op = .act a ∧
      h' = h.execute self co task forks a := by
  cases op with
  | message type session source =>
    obtain ⟨idle, eq⟩ := Option.ite_none_right_eq_some.mp taken
    exact Or.inl ⟨type, session, source, idle, rfl, (Option.some.inj eq).symm⟩
  | socket =>
    obtain ⟨idle, eq⟩ := Option.ite_none_right_eq_some.mp taken
    exact Or.inr (Or.inl ⟨idle, rfl, (Option.some.inj eq).symm⟩)
  | nextFork =>
    obtain ⟨forks, eq⟩ := Option.ite_none_right_eq_some.mp taken
    exact Or.inr (Or.inr (Or.inl ⟨forks, rfl, (Option.some.inj eq).symm⟩))
  | act a =>
    simp only [Host.step] at taken
    split at taken
    · next co forks control =>
      split at taken
      · next task running =>
        exact Or.inr (Or.inr (Or.inr
          ⟨co, forks, task, a, control, running, rfl, (Option.some.inj taken).symm⟩))
      · cases taken
    · cases taken

/-- A step that calls `Genid` not at all and stores no coroutine. -/
structure Quiet (h h' : Host) : Prop where
  sessionGen : h'.sessionGen = h.sessionGen
  allocated : h'.allocated = h.allocated
  outstanding : h'.outstanding.Sublist h.outstanding

theorem Quiet.trans {h₁ h₂ : Host} (q : Quiet h h₁) (q' : Quiet h₁ h₂) : Quiet h h₂ :=
  ⟨q'.sessionGen.trans q.sessionGen, q'.allocated.trans q.allocated,
    q'.outstanding.trans q.outstanding⟩

/-- A step that also sends nothing. -/
structure Silent (h h' : Host) : Prop extends Quiet h h' where
  replies : h'.replies = h.replies
  sent : h'.sent = h.sent

namespace Silent

theorem trans {h₁ h₂ : Host} (s : Silent h h₁) (s' : Silent h₁ h₂) : Silent h h₂ :=
  ⟨s.toQuiet.trans s'.toQuiet, s'.replies.trans s.replies, s'.sent.trans s.sent⟩

theorem resume (h : Host) (co : Nat) (ok forks : Bool) : Silent h (h.resume co ok forks) := by
  unfold Host.resume
  dsimp only
  split <;> exact ⟨⟨rfl, rfl, List.filter_sublist⟩, rfl, rfl⟩

theorem coCreate (placed : Placed h) (request : Option (Int32 × UInt32)) :
    Silent h (h.coCreate request).2 := by
  obtain ⟨-, -, -, -, -, -, -, -, replies, -, gen, allocated, outstanding, sent⟩ :=
    (placed.coCreate request).keeps
  exact ⟨⟨gen, allocated, outstanding ▸ .refl _⟩, replies, sent⟩

theorem wake (h : Host) (session : Int64) (ok : Bool) : Silent h (h.wake session ok) := by
  unfold Host.wake
  split
  · refine .trans ?_ (resume ..)
    exact ⟨⟨rfl, rfl, .refl _⟩, rfl, rfl⟩
  · exact ⟨⟨rfl, rfl, .refl _⟩, rfl, rfl⟩

theorem handle (placed : Placed h) (request : Option (Int32 × UInt32))
    (session address : Option Int64) (ok forks : Bool) :
    Silent h (((h.coCreate request).2.setContext (h.coCreate request).1 session address).resume
      (h.coCreate request).1 ok forks) := by
  refine (coCreate placed request).trans (.trans ?_ (resume ..))
  exact ⟨⟨rfl, rfl, .refl _⟩, rfl, rfl⟩

theorem rawDispatchMessage (placed : Placed h) (dispatch : UInt8 → Bool) (type : UInt8)
    (session : Int32) (source : UInt32) :
    Silent h (h.rawDispatchMessage dispatch type session source) := by
  unfold Host.rawDispatchMessage
  split
  · exact wake ..
  split
  · exact wake ..
  split
  · exact handle placed ..
  · exact ⟨⟨rfl, rfl, .refl _⟩, rfl, rfl⟩

theorem nextFork (h : Host) : Silent h h.nextFork := by
  unfold Host.nextFork
  split
  · exact ⟨⟨rfl, rfl, .refl _⟩, rfl, rfl⟩
  · refine .trans ?_ (resume ..)
    exact ⟨⟨rfl, rfl, .refl _⟩, rfl, rfl⟩

theorem recycle (h : Host) (co : Nat) (forks : Bool) : Silent h (h.recycle co forks) := by
  unfold Host.recycle
  dsimp only
  split <;> exact ⟨⟨rfl, rfl, .refl _⟩, rfl, rfl⟩

end Silent

/-- Steps that send and that change the contexts, and leave the coroutines where they are. -/
structure Still (h h' : Host) : Prop extends Quiet h h' where
  control : h'.control = h.control
  runningThread : h'.runningThread = h.runningThread
  status : h'.status = h.status
  pool : h'.pool = h.pool
  forkQueue : h'.forkQueue = h.forkQueue
  sessions : h'.sessionIdCoroutine = h.sessionIdCoroutine
  created : h'.created = h.created
  tasks : h'.tasks = h.tasks
  starts : h'.starts = h.starts
  failed : h'.failed = h.failed

theorem respond_still (self : UInt32) (address : Option Int64) (session : Int64) (buff : List UInt8)
    (task : Task) : Still h (h.respond self address session buff task) := by
  cases address <;> exact ⟨⟨rfl, rfl, .refl _⟩, rfl, rfl, rfl, rfl, rfl, rfl, rfl, rfl, rfl, rfl⟩

theorem Still.trans {h₁ h₂ : Host} (s : Still h h₁) (s' : Still h₁ h₂) : Still h h₂ :=
  ⟨s.toQuiet.trans s'.toQuiet, s'.control.trans s.control,
    s'.runningThread.trans s.runningThread, s'.status.trans s.status, s'.pool.trans s.pool,
    s'.forkQueue.trans s.forkQueue, s'.sessions.trans s.sessions, s'.created.trans s.created,
    s'.tasks.trans s.tasks, s'.starts.trans s.starts, s'.failed.trans s.failed⟩

theorem ret_still (self : UInt32) (task : Task) (buff : List UInt8) :
    Still h (h.ret self task buff) := by
  unfold Host.ret
  split
  · exact ⟨⟨rfl, rfl, .refl _⟩, rfl, rfl, rfl, rfl, rfl, rfl, rfl, rfl, rfl, rfl⟩
  split
  · exact ⟨⟨rfl, rfl, .refl _⟩, rfl, rfl, rfl, rfl, rfl, rfl, rfl, rfl, rfl, rfl⟩
  dsimp only
  split
  · exact ⟨⟨rfl, rfl, .refl _⟩, rfl, rfl, rfl, rfl, rfl, rfl, rfl, rfl, rfl, rfl⟩
  · refine .trans ?_ (respond_still ..)
    exact ⟨⟨rfl, rfl, .refl _⟩, rfl, rfl, rfl, rfl, rfl, rfl, rfl, rfl, rfl, rfl⟩

theorem response_still (task : Task) : Still h (h.response task) := by
  unfold Host.response
  split
  · exact ⟨⟨rfl, rfl, .refl _⟩, rfl, rfl, rfl, rfl, rfl, rfl, rfl, rfl, rfl, rfl⟩
  split
  · exact ⟨⟨rfl, rfl, .refl _⟩, rfl, rfl, rfl, rfl, rfl, rfl, rfl, rfl, rfl, rfl⟩
  dsimp only
  split <;> exact ⟨⟨rfl, rfl, .refl _⟩, rfl, rfl, rfl, rfl, rfl, rfl, rfl, rfl, rfl, rfl⟩

theorem callClosure_still (self : UInt32) (i : Nat) (buff : Option (List UInt8)) :
    Still h (h.callClosure self i buff) := by
  unfold Host.callClosure
  split
  · exact ⟨⟨rfl, rfl, .refl _⟩, rfl, rfl, rfl, rfl, rfl, rfl, rfl, rfl, rfl, rfl⟩
  split
  · exact ⟨⟨rfl, rfl, .refl _⟩, rfl, rfl, rfl, rfl, rfl, rfl, rfl, rfl, rfl, rfl⟩
  dsimp only
  split
  · exact ⟨⟨rfl, rfl, .refl _⟩, rfl, rfl, rfl, rfl, rfl, rfl, rfl, rfl, rfl, rfl⟩
  · refine .trans ?_ (respond_still ..)
    exact ⟨⟨rfl, rfl, .refl _⟩, rfl, rfl, rfl, rfl, rfl, rfl, rfl, rfl, rfl, rfl⟩

namespace Good

theorem empty : Good {} := ⟨.empty, .empty, .empty⟩

/-- The C functions change nothing that the invariant mentions, but send messages. -/
theorem genid (g : Good h) : Good h.genid.2 :=
  ⟨g.placed.congr rfl rfl rfl rfl rfl rfl rfl, g.tasks.congr rfl rfl rfl,
    g.replies.congr rfl rfl rfl rfl rfl rfl rfl⟩

theorem sendSession (g : Good h) (toId type session : Int64) (buff : List UInt8) :
    Good (h.sendSession self toId type session buff) :=
  ⟨g.placed.congr rfl rfl rfl rfl rfl rfl rfl, g.tasks.congr rfl rfl rfl,
    g.replies.congr rfl rfl rfl rfl rfl rfl rfl⟩

/-- Between coroutines the control state may change. -/
theorem setControl (g : Good h) (idle : Idle h) {control : Control}
    (idle' : ∀ co forks, control ≠ .running co forks) : Good { h with control } := by
  refine ⟨?_, g.tasks.congr rfl rfl rfl, g.replies.congr rfl rfl rfl rfl rfl rfl rfl⟩
  exact ⟨fun co forks running => absurd running (idle' co forks),
    fun co task running => absurd running (g.placed.others_of_idle idle co task), g.placed.pooled,
    g.placed.poolOnce, g.placed.forked, g.placed.forkOnce, g.placed.stored, g.placed.storedOnce,
    g.placed.fresh⟩

theorem resume (g : Good h) (idle : Idle h) (l : Loose h co task) (ok forks : Bool) :
    Good (h.resume co ok forks) :=
  ⟨g.placed.resume idle l ok forks, g.tasks.resume l ok forks, g.replies.resume l ok forks⟩

theorem coCreate (g : Good h) (request : Option (Int32 × UInt32)) :
    Good (h.coCreate request).2 := by
  have c := g.placed.coCreate request
  exact ⟨c.placed, g.tasks.coCreate c, g.replies.coCreate c⟩

/-- A coroutine from `co_create` gets the context of its function. -/
theorem setContext (g : Good h) (l : Loose h co task) (born : co < h.created)
    {session address : Int64}
    (asks : session ≠ 0 → task.Asks session (some address) ∧ Unanswered h task) :
    Good (h.setContext co (some session) (some address)) := by
  exact ⟨g.placed.congr rfl rfl rfl rfl rfl rfl rfl, g.tasks.congr rfl rfl rfl,
    g.replies.setContext l.has born asks⟩

/-! ### Messages -/

theorem wake (g : Good h) (idle : Idle h) (session : Int64) (ok : Bool) :
    Good (h.wake session ok) := by
  unfold Host.wake
  split
  · next co stored =>
    obtain ⟨placed, task, loose⟩ := g.placed.take stored
    have taken : Good { h with
        sessionIdCoroutine := Function.update h.sessionIdCoroutine session none } :=
      ⟨placed, g.tasks.congr rfl rfl rfl, g.replies.congr rfl rfl rfl rfl rfl rfl rfl⟩
    exact taken.resume idle loose ok true
  · exact g.setControl idle nofun

/-- A new function that gets a context. -/
theorem context (g : Good h) (request : Option (Int32 × UInt32)) {session address : Int64}
    (asks : session ≠ 0 → Task.Asks ⟨h.tasks, request⟩ session (some address)) :
    Good ((h.coCreate request).2.setContext (h.coCreate request).1 (some session)
      (some address)) := by
  have c := g.placed.coCreate request
  obtain ⟨-, -, -, -, -, -, closures, -, replies, -⟩ := c.keeps
  have fresh : Unanswered (h.coCreate request).2 ⟨h.tasks, request⟩ := by
    constructor
    · rw [replies]
      exact fun r mem => Nat.ne_of_lt (g.replies.repliesBelow r mem)
    · rw [closures]
      exact fun c mem => Nat.ne_of_lt (g.replies.closuresBelow c mem)
  exact (g.coCreate request).setContext c.loose c.born fun nonzero => ⟨asks nonzero, fresh⟩

/-- A function that gets a context and is started: a handler, or a callback for a socket. -/
theorem handle (g : Good h) (idle : Idle h) (request : Option (Int32 × UInt32))
    {session address : Int64}
    (asks : session ≠ 0 → Task.Asks ⟨h.tasks, request⟩ session (some address)) (ok forks : Bool) :
    Good (((h.coCreate request).2.setContext (h.coCreate request).1 (some session)
      (some address)).resume (h.coCreate request).1 ok forks) := by
  have c := g.placed.coCreate request
  obtain ⟨control, -⟩ := c.keeps
  have idle' : Idle (h.coCreate request).2 := fun co forks => by
    rw [control]
    exact idle co forks
  exact (g.context request asks).resume idle'
    ⟨c.loose.status, c.loose.forkQueue, c.loose.sessions⟩ ok forks

theorem rawDispatchMessage (g : Good h) (idle : Idle h) (dispatch : UInt8 → Bool) (type : UInt8)
    (session : Int32) (source : UInt32) :
    Good (h.rawDispatchMessage dispatch type session source) := by
  unfold Host.rawDispatchMessage
  split
  · exact g.wake idle _ true
  split
  · exact g.wake idle _ false
  split
  · exact g.handle idle (some (session, source)) (fun _ => ⟨session, source, rfl, rfl, rfl⟩) true true
  · exact g.setControl idle nofun

theorem nextFork (g : Good h) (idle : Idle h) : Good h.nextFork := by
  unfold Host.nextFork
  split
  · exact g.setControl idle nofun
  · next co rest queue =>
    obtain ⟨placed, task, -, loose⟩ := g.placed.takeFork queue
    have taken : Good { h with forkQueue := rest } :=
      ⟨placed, g.tasks.congr rfl rfl rfl, g.replies.congr rfl rfl rfl rfl rfl rfl rfl⟩
    exact taken.resume idle loose false true

theorem dispatchInCoroutine (g : Good h) (idle : Idle h) : Good h.dispatchInCoroutine :=
  g.handle idle none (fun nonzero => absurd rfl nonzero) true false

/-! ### What a coroutine does -/

theorem yieldCall (g : Good h) (control : h.control = .running co forks)
    (running : h.status co = .running task) (session : Int64) :
    Good (h.yieldCall session co task forks) := by
  have keeps : ∀ task', (Status.waiting task).task = some task' →
      (h.status co).task = some task' := by
    rintro _ ⟨⟩
    rw [running]
    rfl
  have waits : Replies (h.setStatus co (.waiting task)) := g.replies.setStatus nofun keeps
  exact ⟨g.placed.yieldCall control session task,
    (g.tasks.setStatus keeps nofun).congr rfl rfl rfl, waits.congr rfl rfl rfl rfl rfl rfl rfl⟩

theorem recycle (g : Good h) (control : h.control = .running co forks) :
    Good (h.recycle co forks) := by
  have tasks : Tasks (h.setStatus co .pooled) := g.tasks.setStatus nofun nofun
  refine ⟨g.placed.recycle control, ?_, g.replies.recycle co forks⟩
  unfold Host.recycle
  dsimp only
  split <;> exact tasks.congr rfl rfl rfl

theorem error (g : Good h) (control : h.control = .running co forks) :
    Good { h.setStatus co .dead with control := .after forks } := by
  have tasks : Tasks (h.setStatus co .dead) := g.tasks.setStatus nofun nofun
  have replies : Replies (h.setStatus co .dead) := g.replies.setStatus nofun nofun
  exact ⟨g.placed.error control, tasks.congr rfl rfl rfl,
    replies.congr rfl rfl rfl rfl rfl rfl rfl⟩

theorem fork (g : Good h) : Good { (h.coCreate none).2 with
    forkQueue := (h.coCreate none).2.forkQueue ++ [(h.coCreate none).1] } := by
  have c := g.placed.coCreate none
  have created : (h.coCreate none).2.status (h.coCreate none).1 = .created (some ⟨h.tasks, none⟩) := by
    rw [c.status, Function.update_self]
  have g' := g.coCreate none
  exact ⟨c.placed.pushFork c.loose created, g'.tasks.congr rfl rfl rfl,
    g'.replies.congr rfl rfl rfl rfl rfl rfl rfl⟩

theorem timeout (g : Good h) (session : Int64) :
    Good ((h.coCreate none).2.store session (some (h.coCreate none).1)) := by
  have c := g.placed.coCreate none
  have g' := g.coCreate none
  exact ⟨c.placed.store c.loose session, g'.tasks.congr rfl rfl rfl,
    g'.replies.congr rfl rfl rfl rfl rfl rfl rfl⟩

theorem still (g : Good h) (same : Still h h') (replies : Replies h') : Good h' :=
  ⟨g.placed.congr same.control same.runningThread same.status same.pool same.forkQueue same.sessions
    same.created, g.tasks.congr same.status same.tasks same.starts, replies⟩

theorem execute (g : Good h) (control : h.control = .running co forks)
    (running : h.status co = .running task) (a : Act) :
    Good (h.execute self co task forks a) := by
  obtain ⟨thread, -⟩ := g.placed.runs co forks control
  cases a with
  | call args =>
    rcases args with _ | ⟨addr, type, msg⟩
    · exact g.genid.yieldCall control running _
    · exact (g.genid.sendSession addr type _ msg).yieldCall control running _
  | sleep => exact g.genid.yieldCall control running _
  | fork => exact g.fork
  | timeout => exact g.genid.timeout _
  | ret buff =>
    exact g.still (ret_still self task buff) (g.replies.ret g.tasks thread running self buff)
  | response =>
    exact g.still (response_still task) (g.replies.response g.tasks thread running)
  | closure i buff =>
    exact g.still (callClosure_still self i buff) (g.replies.callClosure self i buff)
  | finish => exact g.recycle control
  | error => exact g.error control

theorem step (g : Good h) {dispatch : UInt8 → Bool} {op : Op}
    (taken : h.step self dispatch op = some h') : Good h' := by
  obtain ⟨type, session, source, idle, rfl, rfl⟩ | ⟨idle, rfl, rfl⟩ | ⟨forks, rfl, rfl⟩ |
    ⟨co, forks, task, a, control, running, rfl, rfl⟩ := step_cases taken
  · exact g.rawDispatchMessage (idle_of_eq idle nofun) dispatch type session source
  · exact g.dispatchInCoroutine (idle_of_eq idle nofun)
  · exact g.nextFork (idle_of_eq forks nofun)
  · exact g.execute control running a

end Good

namespace Recorded

theorem silent (d : Recorded self h) (s : Silent h h') : Recorded self h' :=
  d.congr s.replies s.sent

theorem execute (d : Recorded self h) (good : Good h) (co : Nat) (task : Task) (forks : Bool)
    (a : Act) : Recorded self (h.execute self co task forks a) := by
  cases a with
  | call args =>
    rcases args with _ | ⟨addr, type, msg⟩
    · exact d.congr rfl rfl
    · exact d.grow rfl fun _ mem => List.mem_append_left _ mem
  | sleep | error => exact d.congr rfl rfl
  | fork => exact (d.silent (.coCreate good.placed none)).congr rfl rfl
  | timeout =>
    have numbered : Recorded self h.genid.2 := d.congr rfl rfl
    exact (numbered.silent (.coCreate good.genid.placed none)).congr rfl rfl
  | ret buff => exact d.ret task buff
  | response => exact d.response task
  | closure i buff => exact d.callClosure i buff
  | finish => exact d.silent (.recycle h co forks)

theorem step (d : Recorded self h) (good : Good h) {dispatch : UInt8 → Bool} {op : Op}
    (taken : h.step self dispatch op = some h') : Recorded self h' := by
  obtain ⟨type, session, source, -, rfl, rfl⟩ | ⟨-, rfl, rfl⟩ | ⟨-, rfl, rfl⟩ |
    ⟨co, forks, task, a, -, -, rfl, rfl⟩ := step_cases taken
  · exact d.silent (.rawDispatchMessage good.placed ..)
  · exact d.silent (.handle good.placed ..)
  · exact d.silent (.nextFork h)
  · exact d.execute good co task forks a

end Recorded

theorem good_of_run {dispatch : UInt8 → Bool} {tr : List Op}
    (run : (library self dispatch).Run h tr) : Good h := by
  induction run with
  | init start => exact start ▸ .empty
  | step _ taken good => exact good.step taken

theorem recorded_of_run {dispatch : UInt8 → Bool} {tr : List Op}
    (run : (library self dispatch).Run h tr) : Recorded self h := by
  induction run with
  | init start =>
    subst start
    exact nofun
  | step run taken recorded => exact recorded.step (good_of_run run) taken

theorem run_of_steps {dispatch : UInt8 → Bool} {ops : List Op}
    (steps : ops.foldlM (Host.step self dispatch) {} = some h) :
    (library self dispatch).Run h ops :=
  Transition.System.Run.foldlM (fun _ _ _ => id) (.init rfl) steps

end Starnet.Host
