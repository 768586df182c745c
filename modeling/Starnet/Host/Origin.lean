import Starnet.Host.Run

/-! The request that a reply answers. A function with a session and a source was given to
`co_create` by `raw_dispatch_message`, for one message of the run, and stays the function of a
coroutine, a closure or a reply; the message of a reply is therefore the request whose handler
called `ret` or `response`. -/

namespace Starnet.Host

/-- A coroutine executes or will execute a function, or a closure or a reply was made by it. -/
def Holds (h : Host) (task : Task) : Prop :=
  (∃ co, (h.status co).task = some task) ∨ (∃ c ∈ h.closures, c.task = task) ∨
    ∃ r ∈ h.replies, r.task = task

/-- A step that brings no function. -/
structure Inherits (h h' : Host) : Prop where
  holds : ∀ task, h'.Holds task → h.Holds task

/-- A message for which `raw_dispatch_message` starts a handler. -/
def Op.Requests (dispatch : UInt8 → Bool) (op : Op) (session : Int32) (source : UInt32) : Prop :=
  ∃ type, op = .message type session source ∧ type ≠ MsgType.response ∧ type ≠ MsgType.error ∧
    dispatch type = true

variable {self : UInt32} {dispatch : UInt8 → Bool} {h h' : Host} {co : Nat} {task : Task}
  {forks : Bool} {op : Op}

namespace Inherits

theorem trans {h₁ h₂ : Host} (i : Inherits h h₁) (i' : Inherits h₁ h₂) : Inherits h h₂ :=
  ⟨fun task has => i.holds task (i'.holds task has)⟩

theorem refl (h : Host) : Inherits h h := ⟨fun _ => id⟩

theorem of (status : ∀ co task, (h'.status co).task = some task → (h.status co).task = some task)
    (closures : ∀ c ∈ h'.closures, h.Holds c.task) (replies : ∀ r ∈ h'.replies, h.Holds r.task) :
    Inherits h h' := by
  refine ⟨?_⟩
  rintro task (⟨co, has⟩ | ⟨c, mem, rfl⟩ | ⟨r, mem, rfl⟩)
  · exact Or.inl ⟨co, status co task has⟩
  · exact closures c mem
  · exact replies r mem

theorem congr (status : h'.status = h.status) (closures : h'.closures = h.closures)
    (replies : h'.replies = h.replies) : Inherits h h' := by
  refine ⟨fun task has => ?_⟩
  rw [Holds, status, closures, replies] at has
  exact has

theorem setStatus {status : Status}
    (keeps : ∀ task, status.task = some task → (h.status co).task = some task) :
    Inherits h (h.setStatus co status) := by
  refine of (fun co' task has => ?_) (fun c mem => Or.inr (Or.inl ⟨c, mem, rfl⟩))
    fun r mem => Or.inr (Or.inr ⟨r, mem, rfl⟩)
  simp only [Host.setStatus] at has
  by_cases same : co' = co
  · subst same
    rw [Function.update_self] at has
    exact keeps task has
  · rwa [Function.update_of_ne same] at has

theorem resume (h : Host) (co : Nat) (ok forks : Bool) : Inherits h (h.resume co ok forks) := by
  unfold Host.resume
  dsimp only
  split
  · next task status =>
    have running : Inherits h (h.setStatus co (.running task)) := setStatus fun _ has => by
      rw [show h.status co = .created (some task) from status]
      exact has
    exact running.trans (.congr rfl rfl rfl)
  · have dead : Inherits h (h.setStatus co .dead) := setStatus nofun
    exact dead.trans (.congr rfl rfl rfl)
  · next task status =>
    have running : Inherits h (h.setStatus co (.running task)) := setStatus fun _ has => by
      rw [show h.status co = .waiting task from status]
      exact has
    exact running.trans (.congr rfl rfl rfl)
  · have empty : Inherits h (h.setStatus co (.created none)) := setStatus nofun
    exact empty.trans (.congr rfl rfl rfl)
  · exact .congr rfl rfl rfl
  · exact .congr rfl rfl rfl

theorem wake (h : Host) (session : Int64) (ok : Bool) : Inherits h (h.wake session ok) := by
  unfold Host.wake
  split
  · refine .trans ?_ (resume ..)
    exact .congr rfl rfl rfl
  · exact .congr rfl rfl rfl

theorem nextFork (h : Host) : Inherits h h.nextFork := by
  unfold Host.nextFork
  split
  · exact .congr rfl rfl rfl
  · refine .trans ?_ (resume ..)
    exact .congr rfl rfl rfl

theorem respond (holds : h.Holds task) (self : UInt32) (address : Option Int64) (session : Int64)
    (buff : List UInt8) : Inherits h (h.respond self address session buff task) := by
  rcases address with _ | toId
  · exact .refl h
  refine of (fun _ _ => id) (fun c mem => Or.inr (Or.inl ⟨c, mem, rfl⟩)) fun r mem => ?_
  rcases List.mem_append.mp mem with mem | mem
  · exact Or.inr (Or.inr ⟨r, mem, rfl⟩)
  · rw [List.mem_singleton.mp mem]
    exact holds

theorem ret (holds : h.Holds task) (self : UInt32) (buff : List UInt8) :
    Inherits h (h.ret self task buff) := by
  unfold Host.ret
  split
  · exact .refl h
  split
  · exact .refl h
  dsimp only
  split
  · exact .congr rfl rfl rfl
  · refine .trans ?_ (respond ?_ ..)
    · exact .congr rfl rfl rfl
    · exact holds

theorem response (holds : h.Holds task) : Inherits h (h.response task) := by
  unfold Host.response
  split
  · exact .refl h
  split
  · exact .refl h
  dsimp only
  split
  · exact .congr rfl rfl rfl
  · refine of (fun _ _ => id) (fun c mem => ?_) fun r mem => Or.inr (Or.inr ⟨r, mem, rfl⟩)
    rcases List.mem_append.mp mem with mem | mem
    · exact Or.inr (Or.inl ⟨c, mem, rfl⟩)
    · rw [List.mem_singleton.mp mem]
      exact holds

theorem callClosure (h : Host) (self : UInt32) (i : Nat) (buff : Option (List UInt8)) :
    Inherits h (h.callClosure self i buff) := by
  unfold Host.callClosure
  split
  · exact .refl h
  next c found =>
  have holds : h.Holds c.task := Or.inr (Or.inl ⟨c, List.mem_of_getElem? found, rfl⟩)
  split
  · exact .refl h
  have marked : Inherits h { h with closures := h.closures.set i { c with sent := true } } := by
    refine of (fun _ _ => id) (fun c' mem => ?_) fun r mem => Or.inr (Or.inr ⟨r, mem, rfl⟩)
    rcases List.mem_or_eq_of_mem_set mem with mem | rfl
    · exact Or.inr (Or.inl ⟨c', mem, rfl⟩)
    · exact holds
  dsimp only
  split
  · exact marked
  · refine marked.trans (respond ?_ ..)
    exact Or.inr (Or.inl ⟨_, List.mem_set (List.getElem?_eq_some_iff.mp found).1 _, rfl⟩)

theorem yieldCall {h₁ : Host} (i : Inherits h h₁) (running : h₁.status co = .running task)
    (session : Int64) (forks : Bool) : Inherits h (h₁.yieldCall session co task forks) := by
  have waits : Inherits h₁ (h₁.setStatus co (.waiting task)) := setStatus fun _ has => by
    rw [running]
    exact has
  refine i.trans (waits.trans ?_)
  exact .congr rfl rfl rfl

theorem recycle (h : Host) (co : Nat) (forks : Bool) : Inherits h (h.recycle co forks) := by
  have pooled : Inherits h (h.setStatus co .pooled) := setStatus nofun
  refine pooled.trans ?_
  unfold Host.recycle
  dsimp only
  split <;> exact .congr rfl rfl rfl

end Inherits

/-- `co_create` brings its function. -/
theorem Creates.holds {request : Option (Int32 × UInt32)} (c : Creates h request co h')
    (has : h'.Holds task) : h.Holds task ∨ task = ⟨h.tasks, request⟩ := by
  obtain ⟨-, -, -, -, -, -, closures, -, replies, -⟩ := c.keeps
  rcases has with ⟨co', has⟩ | ⟨c', mem, rfl⟩ | ⟨r, mem, rfl⟩
  · rw [c.status] at has
    by_cases same : co' = co
    · rw [same, Function.update_self] at has
      exact Or.inr (Option.some.inj has).symm
    · rw [Function.update_of_ne same] at has
      exact Or.inl (Or.inl ⟨co', has⟩)
  · exact Or.inl (Or.inr (Or.inl ⟨c', closures ▸ mem, rfl⟩))
  · exact Or.inl (Or.inr (Or.inr ⟨r, replies ▸ mem, rfl⟩))

theorem handle_holds (placed : Placed h) (request : Option (Int32 × UInt32))
    (session address : Option Int64) (ok forks : Bool)
    (has : (((h.coCreate request).2.setContext (h.coCreate request).1 session address).resume
      (h.coCreate request).1 ok forks).Holds task) :
    h.Holds task ∨ task = ⟨h.tasks, request⟩ := by
  have has := (Inherits.resume ..).holds task has
  exact (placed.coCreate request).holds ((Inherits.congr rfl rfl rfl).holds task has)

/-- A new function of the running coroutine has no request. -/
theorem execute_holds (placed : Placed h) (running : h.status co = .running task) (a : Act)
    {task' : Task} (has : (h.execute self co task forks a).Holds task') :
    h.Holds task' ∨ task' = ⟨h.tasks, none⟩ := by
  have holds : h.Holds task := by
    refine Or.inl ⟨co, ?_⟩
    rw [running]
    rfl
  cases a with
  | call args =>
    have waits : Inherits h (h.execute self co task forks (.call args)) := by
      rcases args with _ | ⟨addr, type, msg⟩
      · refine .yieldCall ?_ ?_ ..
        · exact .congr rfl rfl rfl
        · exact running
      · refine .yieldCall ?_ ?_ ..
        · exact .congr rfl rfl rfl
        · exact running
    exact Or.inl (waits.holds task' has)
  | sleep =>
    have waits : Inherits h (h.execute self co task forks .sleep) := by
      refine .yieldCall ?_ ?_ ..
      · exact .congr rfl rfl rfl
      · exact running
    exact Or.inl (waits.holds task' has)
  | fork =>
    have forked : (h.coCreate none).2.Holds task' := (Inherits.congr rfl rfl rfl).holds task' has
    exact (placed.coCreate none).holds forked
  | timeout =>
    have placed' : Placed h.genid.2 := placed.congr rfl rfl rfl rfl rfl rfl rfl
    have timed : (h.genid.2.coCreate none).2.Holds task' := (Inherits.congr rfl rfl rfl).holds task' has
    exact ((placed'.coCreate none).holds timed).imp_left ((Inherits.congr rfl rfl rfl).holds task')
  | ret buff => exact Or.inl ((Inherits.ret holds self buff).holds task' has)
  | response => exact Or.inl ((Inherits.response holds).holds task' has)
  | closure i buff => exact Or.inl ((Inherits.callClosure h self i buff).holds task' has)
  | finish => exact Or.inl ((Inherits.recycle h co forks).holds task' has)
  | error =>
    have dead : Inherits h (h.setStatus co .dead) := .setStatus nofun
    exact Or.inl ((dead.trans (.congr rfl rfl rfl)).holds task' has)

/-- A step brings at most the next function, and that has a request only if the step takes it. -/
theorem step_holds (placed : Placed h) (taken : h.step self dispatch op = some h')
    (has : h'.Holds task) :
    h.Holds task ∨ ∃ request, task = ⟨h.tasks, request⟩ ∧
      ∀ session source, request = some (session, source) → op.Requests dispatch session source := by
  obtain ⟨type, session, source, -, rfl, rfl⟩ | ⟨-, rfl, rfl⟩ | ⟨-, rfl, rfl⟩ |
    ⟨co, forks, task', a, -, running, rfl, rfl⟩ := step_cases taken
  · unfold Host.rawDispatchMessage at has
    split at has
    · exact Or.inl ((Inherits.wake ..).holds task has)
    split at has
    · exact Or.inl ((Inherits.wake ..).holds task has)
    next request error =>
    split at has
    · next handled =>
      refine (handle_holds placed _ _ _ _ _ has).imp_right fun eq => ⟨_, eq, ?_⟩
      rintro _ _ ⟨⟩
      exact ⟨type, rfl, request, error, handled⟩
    · exact Or.inl ((Inherits.congr rfl rfl rfl).holds task has)
  · exact (handle_holds placed _ _ _ _ _ has).imp_right fun eq => ⟨none, eq, by rintro _ _ ⟨⟩⟩
  · exact Or.inl ((Inherits.nextFork h).holds task has)
  · exact (execute_holds placed running a has).imp_right fun eq => ⟨none, eq, by rintro _ _ ⟨⟩⟩

/-! ### Runs -/

/-- Message `i` of a run is the request of a function: the function is the one that was given to
`co_create` when the message was taken. -/
def Handles (self : UInt32) (dispatch : UInt8 → Bool) (tr : List Op) (i : Nat) (task : Task) :
    Prop :=
  ∃ op session source h, tr[i]? = some op ∧ op.Requests dispatch session source ∧
    task.request = some (session, source) ∧ (library self dispatch).Run h (tr.take i) ∧
    h.tasks = task.number

theorem Handles.append {tr : List Op} {i : Nat} (handles : Handles self dispatch tr i task)
    (op : Op) : Handles self dispatch (tr ++ [op]) i task := by
  obtain ⟨op', session, source, h, found, requests, request, run, number⟩ := handles
  have inside : i < tr.length := (List.getElem?_eq_some_iff.mp found).1
  refine ⟨op', session, source, h, ?_, requests, request, ?_, number⟩
  · rw [List.getElem?_append_left inside]
    exact found
  · rw [List.take_append_of_le_length (Nat.le_of_lt inside)]
    exact run

/-- A message is the request of one function only. -/
theorem Handles.unique {tr : List Op} {i : Nat} {task' : Task}
    (handles : Handles self dispatch tr i task) (handles' : Handles self dispatch tr i task') :
    task.number = task'.number := by
  obtain ⟨-, -, -, h, -, -, -, run, number⟩ := handles
  obtain ⟨-, -, -, h', -, -, -, run', number'⟩ := handles'
  have start : ∀ s s', (library self dispatch).init s → (library self dispatch).init s' → s = s' :=
    fun _ _ empty empty' => Eq.trans empty (Eq.symm empty')
  have once : ∀ s op s₁ s₂, (library self dispatch).step s op s₁ →
      (library self dispatch).step s op s₂ → s₁ = s₂ :=
    fun _ _ _ _ taken taken' => Option.some.inj (Eq.trans (Eq.symm taken) taken')
  rw [← number, ← number', run.unique start once run']

theorem handles_of_run {tr : List Op} (run : (library self dispatch).Run h tr)
    (holds : h.Holds task) {session : Int32} {source : UInt32}
    (asks : task.request = some (session, source)) :
    ∃ i, Handles self dispatch tr i task := by
  induction run with
  | init start =>
    subst start
    rcases holds with ⟨_, has⟩ | ⟨_, mem, -⟩ | ⟨_, mem, -⟩
    · cases has
    · cases mem
    · cases mem
  | @step h₀ h tr op run taken ih =>
    rcases step_holds (good_of_run run).placed taken holds with holds | ⟨request, rfl, requests⟩
    · obtain ⟨i, handles⟩ := ih holds
      exact ⟨i, handles.append op⟩
    · refine ⟨tr.length, op, session, source, h₀, ?_, requests session source asks, asks, ?_, rfl⟩
      · exact List.getElem?_concat_length
      · rw [List.take_left]
        exact run

end Starnet.Host
