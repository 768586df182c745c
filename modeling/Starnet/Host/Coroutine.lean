import Starnet.Host.Library

/-! Where the coroutines of the host library stand. A coroutine is in the pool, in the fork queue
or in `session_id_coroutine` at most once and in one of them only, and `running_thread` is the
coroutine that runs. -/

namespace Starnet.Host

/-- What the tables and the control state say of the status of a coroutine. -/
structure Placed (h : Host) : Prop where
  runs : ∀ co forks, h.control = .running co forks →
    h.runningThread = some co ∧ ∃ task, h.status co = .running task
  alone : ∀ co task, h.status co = .running task → ∃ forks, h.control = .running co forks
  pooled : ∀ co ∈ h.pool, h.status co = .pooled
  poolOnce : h.pool.Nodup
  forked : ∀ co ∈ h.forkQueue, ∃ task, h.status co = .created (some task)
  forkOnce : h.forkQueue.Nodup
  stored : ∀ key co, h.sessionIdCoroutine key = some co → co ∉ h.forkQueue ∧
    ∃ task, h.status co = .created (some task) ∨ h.status co = .waiting task
  storedOnce : ∀ key key' co, h.sessionIdCoroutine key = some co →
    h.sessionIdCoroutine key' = some co → key = key'
  fresh : ∀ co, h.created ≤ co → h.status co = .dead

/-- A coroutine that has a function and that nothing refers to. -/
structure Loose (h : Host) (co : Nat) (task : Task) : Prop where
  status : h.status co = .created (some task) ∨ h.status co = .waiting task
  forkQueue : co ∉ h.forkQueue
  sessions : ∀ key, h.sessionIdCoroutine key ≠ some co

/-- No coroutine runs. -/
def Idle (h : Host) : Prop := ∀ co forks, h.control ≠ .running co forks

variable {h : Host} {co : Nat} {task : Task} {forks : Bool}

namespace Placed

theorem empty : Placed {} := by
  refine ⟨nofun, nofun, nofun, .nil, nofun, .nil, nofun, nofun, fun _ _ => rfl⟩

/-- A change of fields that the invariant does not mention, or of the control state outside a
coroutine. -/
theorem congr (p : Placed h) {h' : Host} (control : h'.control = h.control)
    (runningThread : h'.runningThread = h.runningThread) (status : h'.status = h.status)
    (pool : h'.pool = h.pool) (forkQueue : h'.forkQueue = h.forkQueue)
    (sessions : h'.sessionIdCoroutine = h.sessionIdCoroutine) (created : h'.created = h.created) :
    Placed h' := by
  constructor
  · rw [control, runningThread, status]
    exact p.runs
  · rw [control, status]
    exact p.alone
  · rw [pool, status]
    exact p.pooled
  · rw [pool]
    exact p.poolOnce
  · rw [forkQueue, status]
    exact p.forked
  · rw [forkQueue]
    exact p.forkOnce
  · rw [sessions, forkQueue, status]
    exact p.stored
  · rw [sessions]
    exact p.storedOnce
  · rw [created, status]
    exact p.fresh

/-- A coroutine that runs is in no table. -/
theorem running_loose (p : Placed h) (running : h.status co = .running task) :
    co ∉ h.pool ∧ co ∉ h.forkQueue ∧ (∀ key, h.sessionIdCoroutine key ≠ some co) ∧
      co < h.created := by
  refine ⟨fun mem => ?_, fun mem => ?_, fun key stored => ?_, ?_⟩
  · have pooled := p.pooled co mem
    rw [running] at pooled
    cases pooled
  · obtain ⟨_, created⟩ := p.forked co mem
    rw [running] at created
    cases created
  · obtain ⟨-, _, created | waiting⟩ := p.stored key co stored
    · rw [running] at created
      cases created
    · rw [running] at waiting
      cases waiting
  · by_contra fresh
    have dead := p.fresh co (Nat.le_of_not_lt fresh)
    rw [running] at dead
    cases dead

/-- The running coroutine, or a loose one that no coroutine runs beside, gets a status in which no
table may hold it. -/
theorem setStatus (p : Placed h) (outside : co ∉ h.pool ∧ co ∉ h.forkQueue ∧
    (∀ key, h.sessionIdCoroutine key ≠ some co) ∧ co < h.created) {status : Status}
    {control : Control} {runningThread : Option Nat}
    (runs : ∀ co' forks, control = .running co' forks →
      co' = co ∧ runningThread = some co ∧ ∃ task, status = .running task)
    (alone : ∀ task, status = .running task → ∃ forks, control = .running co forks)
    (others : ∀ co' task, co' ≠ co → h.status co' ≠ .running task) :
    Placed { h.setStatus co status with control, runningThread } := by
  obtain ⟨notPool, notForked, notStored, born⟩ := outside
  have other : ∀ co', co' ≠ co → (h.setStatus co status).status co' = h.status co' := fun co' ne =>
    Function.update_of_ne ne ..
  have self : (h.setStatus co status).status co = status := Function.update_self ..
  constructor
  · intro co' forks running
    obtain ⟨rfl, thread, task, eq⟩ := runs co' forks running
    exact ⟨thread, task, self.trans eq⟩
  · intro co' task running
    by_cases same : co' = co
    · subst same
      exact alone task (self.symm.trans running)
    · exact absurd ((other co' same).symm.trans running) (others co' task same)
  · intro co' mem
    exact (other co' fun eq => notPool (eq ▸ mem)).trans (p.pooled co' mem)
  · exact p.poolOnce
  · intro co' mem
    obtain ⟨task, created⟩ := p.forked co' mem
    exact ⟨task, (other co' fun eq => notForked (eq ▸ mem)).trans created⟩
  · exact p.forkOnce
  · intro key co' stored
    obtain ⟨absent, task, status⟩ := p.stored key co' stored
    refine ⟨absent, task, ?_⟩
    have ne : co' ≠ co := fun eq => notStored key (eq ▸ stored)
    exact status.imp (other co' ne).trans (other co' ne).trans
  · exact p.storedOnce
  · intro co' fresh
    exact (other co' (Nat.ne_of_gt (Nat.lt_of_lt_of_le born fresh))).trans (p.fresh co' fresh)

end Placed

theorem Placed.others_of_idle (p : Placed h) (idle : Idle h) (co' : Nat) (task : Task) :
    h.status co' ≠ .running task := by
  intro running
  obtain ⟨forks, control⟩ := p.alone co' task running
  exact idle co' forks control

theorem Placed.others_of_running (p : Placed h) (control : h.control = .running co forks)
    (co' : Nat) (task : Task) (ne : co' ≠ co) : h.status co' ≠ .running task := by
  intro running
  obtain ⟨forks', control'⟩ := p.alone co' task running
  rw [control] at control'
  cases control'
  exact ne rfl

theorem idle_of_eq {control : Control} (eq : h.control = control)
    (ne : ∀ co forks, control ≠ .running co forks) : Idle h := fun co forks => eq ▸ ne co forks

theorem Control.after_ne (forks : Bool) (co : Nat) (forks' : Bool) :
    Control.after forks ≠ .running co forks' := by
  cases forks <;> nofun

/-- A loose coroutine is neither in the pool nor unborn. -/
theorem Loose.outside (l : Loose h co task) (p : Placed h) : co ∉ h.pool ∧ co ∉ h.forkQueue ∧
    (∀ key, h.sessionIdCoroutine key ≠ some co) ∧ co < h.created := by
  refine ⟨fun mem => ?_, l.forkQueue, l.sessions, ?_⟩
  · have pooled := p.pooled co mem
    rcases l.status with created | waiting
    · rw [created] at pooled
      cases pooled
    · rw [waiting] at pooled
      cases pooled
  · by_contra fresh
    have dead := p.fresh co (Nat.le_of_not_lt fresh)
    rcases l.status with created | waiting
    · rw [created] at dead
      cases dead
    · rw [waiting] at dead
      cases dead

theorem Loose.has (l : Loose h co task) : (h.status co).task = some task := by
  rcases l.status with status | status <;> rw [status] <;> rfl

/-! ### Resuming -/

/-- What resuming a loose coroutine changes. -/
theorem resume_loose (l : Loose h co task) (ok forks : Bool) :
    (h.resume co ok forks).status = Function.update h.status co (.running task) ∧
    (h.resume co ok forks).control = .running co forks ∧
    (h.resume co ok forks).runningThread = some co ∧
    (h.resume co ok forks).pool = h.pool ∧ (h.resume co ok forks).forkQueue = h.forkQueue ∧
    (h.resume co ok forks).sessionIdCoroutine = h.sessionIdCoroutine ∧
    (h.resume co ok forks).created = h.created ∧
    (h.resume co ok forks).starts = (if h.status co = .waiting task then h.starts
      else h.starts ++ [task.number]) := by
  unfold resume
  rcases l.status with created | waiting
  · simp [created, setStatus]
  · simp [waiting, setStatus]

theorem resume_tasks (h : Host) (co : Nat) (ok forks : Bool) :
    (h.resume co ok forks).tasks = h.tasks := by
  unfold Host.resume
  dsimp only
  split <;> rfl

theorem Placed.resume (p : Placed h) (idle : Idle h) (l : Loose h co task) (ok forks : Bool) :
    Placed (h.resume co ok forks) := by
  obtain ⟨status, control, thread, pool, forkQueue, sessions, created, -⟩ := resume_loose l ok forks
  have started : Placed { h.setStatus co (.running task) with
      control := .running co forks, runningThread := some co } := by
    refine p.setStatus (l.outside p) ?_ (fun _ _ => ⟨forks, rfl⟩)
      fun co' task' _ => p.others_of_idle idle co' task'
    rintro _ _ ⟨⟩
    exact ⟨rfl, rfl, task, rfl⟩
  exact started.congr control thread status pool forkQueue sessions created

/-! ### Creating -/

/-- What `co_create` does when the pool holds coroutines that wait for a function. -/
structure Creates (h : Host) (request : Option (Int32 × UInt32)) (co : Nat) (h' : Host) : Prop where
  placed : Placed h'
  loose : Loose h' co ⟨h.tasks, request⟩
  status : h'.status = Function.update h.status co (.created (some ⟨h.tasks, request⟩))
  unused : h.status co = .pooled ∨ h.created ≤ co
  created : h.created ≤ h'.created
  born : co < h'.created
  tasks : h'.tasks = h.tasks + 1
  keeps : h'.control = h.control ∧ h'.runningThread = h.runningThread ∧
    h'.forkQueue = h.forkQueue ∧ h'.sessionIdCoroutine = h.sessionIdCoroutine ∧
    h'.sessionCoroutineId = h.sessionCoroutineId ∧
    h'.sessionCoroutineAddress = h.sessionCoroutineAddress ∧ h'.closures = h.closures ∧
    h'.starts = h.starts ∧ h'.replies = h.replies ∧ h'.failed = h.failed ∧
    h'.sessionGen = h.sessionGen ∧ h'.allocated = h.allocated ∧ h'.outstanding = h.outstanding ∧
    h'.sent = h.sent

/-- Nothing refers to a coroutine that is in the pool or not created yet. -/
theorem Placed.unused_loose (p : Placed h) (unused : h.status co = .pooled ∨ h.created ≤ co) :
    co ∉ h.forkQueue ∧ ∀ key, h.sessionIdCoroutine key ≠ some co := by
  have status : h.status co = .pooled ∨ h.status co = .dead := unused.imp_right (p.fresh co)
  refine ⟨fun mem => ?_, fun key stored => ?_⟩
  · obtain ⟨_, created⟩ := p.forked co mem
    rw [created] at status
    rcases status with status | status <;> cases status
  · obtain ⟨-, _, created | waiting⟩ := p.stored key co stored
    · rw [created] at status
      rcases status with status | status <;> cases status
    · rw [waiting] at status
      rcases status with status | status <;> cases status

/-- A coroutine that nothing refers to gets a function, and its reference in the pool is gone. -/
theorem Placed.create (p : Placed h) (request : Option (Int32 × UInt32)) (h' : Host)
    {pool : List Nat} {created : Nat} (unused : h.status co = .pooled ∨ h.created ≤ co) (sub : pool.Sublist h.pool)
    (absent : co ∉ pool) (older : h.created ≤ created) (born : co < created)
    (status : h'.status = Function.update h.status co (.created (some ⟨h.tasks, request⟩)))
    (pool' : h'.pool = pool) (created' : h'.created = created) (control : h'.control = h.control)
    (thread : h'.runningThread = h.runningThread) (forkQueue : h'.forkQueue = h.forkQueue)
    (sessions : h'.sessionIdCoroutine = h.sessionIdCoroutine) :
    Placed h' ∧ Loose h' co ⟨h.tasks, request⟩ := by
  obtain ⟨notForked, notStored⟩ := p.unused_loose unused
  have other : ∀ co', co' ≠ co → h'.status co' = h.status co' := fun co' ne => by
    rw [status, Function.update_of_ne ne]
  have self : h'.status co = .created (some ⟨h.tasks, request⟩) := by
    rw [status, Function.update_self]
  refine ⟨⟨fun co' forks running => ?_, fun co' task running => ?_, fun co' mem => ?_,
    pool' ▸ p.poolOnce.sublist sub, fun co' mem => ?_, forkQueue ▸ p.forkOnce,
    fun key co' stored => ?_, sessions ▸ p.storedOnce, fun co' fresh => ?_⟩, Or.inl self,
    forkQueue ▸ notForked, sessions ▸ notStored⟩
  · rw [control] at running
    obtain ⟨same, task, runs⟩ := p.runs co' forks running
    have ne : co' ≠ co := by
      rintro rfl
      rcases unused with pooled | fresh
      · cases runs.symm.trans pooled
      · cases runs.symm.trans (p.fresh co' fresh)
    exact ⟨thread.trans same, task, (other co' ne).trans runs⟩
  · by_cases same : co' = co
    · rw [same, self] at running
      cases running
    · rw [control]
      exact p.alone co' task ((other co' same).symm.trans running)
  · rw [pool'] at mem
    exact (other co' fun eq => absent (eq ▸ mem)).trans (p.pooled co' (sub.subset mem))
  · rw [forkQueue] at mem
    obtain ⟨task, fork⟩ := p.forked co' mem
    exact ⟨task, (other co' fun eq => notForked (eq ▸ mem)).trans fork⟩
  · rw [sessions] at stored
    obtain ⟨absent', task, status'⟩ := p.stored key co' stored
    have ne : co' ≠ co := fun eq => notStored key (eq ▸ stored)
    rw [forkQueue]
    exact ⟨absent', task, status'.imp (other co' ne).trans (other co' ne).trans⟩
  · rw [created'] at fresh
    have ne : co' ≠ co := Nat.ne_of_gt (Nat.lt_of_lt_of_le born fresh)
    exact (other co' ne).trans (p.fresh co' (older.trans fresh))

/-- The last coroutine of the pool. -/
theorem Placed.last (p : Placed h) (last : h.pool.getLast? = some co) :
    h.status co = .pooled ∧ co ∉ h.pool.dropLast ∧ co < h.created := by
  have split : h.pool = h.pool.dropLast ++ [co] :=
    (List.dropLast_append_getLast? co (Option.mem_def.mpr last)).symm
  have once := p.poolOnce
  rw [split] at once
  have pooled : h.status co = .pooled := by
    refine p.pooled co ?_
    rw [split]
    exact List.mem_append_right _ (List.mem_singleton_self _)
  refine ⟨pooled, fun mem => ?_, ?_⟩
  · exact List.disjoint_of_nodup_append once mem (List.mem_singleton_self _)
  · by_contra fresh
    have dead := p.fresh co (Nat.le_of_not_lt fresh)
    rw [pooled] at dead
    cases dead

theorem Placed.coCreate (p : Placed h) (request : Option (Int32 × UInt32)) :
    Creates h request (h.coCreate request).1 (h.coCreate request).2 := by
  rcases last : h.pool.getLast? with _ | co
  · simp only [Host.coCreate, last]
    have empty : h.pool = [] := List.getLast?_eq_none_iff.mp last
    have unused : h.status h.created = .pooled ∨ h.created ≤ h.created := Or.inr (Nat.le_refl _)
    obtain ⟨placed, loose⟩ := p.create request
      { { h with tasks := h.tasks + 1 }.setStatus h.created (.created (some ⟨h.tasks, request⟩)) with
        created := h.created + 1 } unused (List.nil_sublist _) nofun (Nat.le_succ _)
      (Nat.lt_succ_self _) rfl empty rfl rfl rfl rfl rfl
    exact ⟨placed, loose, rfl, unused, Nat.le_succ _, Nat.lt_succ_self _, rfl, rfl, rfl, rfl, rfl,
      rfl, rfl, rfl, rfl, rfl, rfl, rfl, rfl, rfl, rfl⟩
  · obtain ⟨pooled, absent, born⟩ := p.last last
    simp only [Host.coCreate, last, pooled]
    obtain ⟨placed, loose⟩ := p.create request
      { { h with tasks := h.tasks + 1, pool := h.pool.dropLast }.setStatus co
        (.created (some ⟨h.tasks, request⟩)) with runningThread := h.runningThread }
      (Or.inl pooled) (List.dropLast_sublist _) absent (Nat.le_refl _) born rfl rfl rfl rfl rfl rfl
      rfl
    exact ⟨placed, loose, rfl, Or.inl pooled, Nat.le_refl _, born, rfl, rfl, rfl, rfl, rfl, rfl, rfl,
      rfl, rfl, rfl, rfl, rfl, rfl, rfl, rfl⟩

/-! ### Tables -/

namespace Placed

/-- An entry that leaves `session_id_coroutine`. -/
theorem take (p : Placed h) {key : Int64} (stored : h.sessionIdCoroutine key = some co) :
    Placed { h with sessionIdCoroutine := Function.update h.sessionIdCoroutine key none } ∧
      ∃ task, Loose { h with sessionIdCoroutine := Function.update h.sessionIdCoroutine key none }
        co task := by
  have sub : ∀ key' co', Function.update h.sessionIdCoroutine key none key' = some co' →
      key' ≠ key ∧ h.sessionIdCoroutine key' = some co' := by
    intro key' co' eq
    by_cases same : key' = key
    · rw [same, Function.update_self] at eq
      cases eq
    · rw [Function.update_of_ne same] at eq
      exact ⟨same, eq⟩
  constructor
  · exact ⟨p.runs, p.alone, p.pooled, p.poolOnce, p.forked, p.forkOnce,
      fun key' co' eq => p.stored key' co' (sub key' co' eq).2,
      fun _ _ co' eq eq' => p.storedOnce _ _ co' (sub _ co' eq).2 (sub _ co' eq').2, p.fresh⟩
  · obtain ⟨absent, task, status⟩ := p.stored key co stored
    refine ⟨task, status, absent, fun key' eq => ?_⟩
    obtain ⟨ne, eq⟩ := sub key' co eq
    exact ne (p.storedOnce key' key co eq stored)

/-- The front of the fork queue. -/
theorem takeFork (p : Placed h) {rest : List Nat} (queue : h.forkQueue = co :: rest) :
    Placed { h with forkQueue := rest } ∧
      ∃ task, h.status co = .created (some task) ∧ Loose { h with forkQueue := rest } co task := by
  have once := p.forkOnce
  rw [queue, List.nodup_cons] at once
  have tail : ∀ co' ∈ rest, co' ∈ h.forkQueue := fun co' mem => queue ▸ List.mem_cons_of_mem _ mem
  have front : co ∈ h.forkQueue := queue ▸ List.mem_cons_self ..
  constructor
  · refine ⟨p.runs, p.alone, p.pooled, p.poolOnce, fun co' mem => p.forked co' (tail co' mem), once.2,
      fun key co' stored => ?_, p.storedOnce, p.fresh⟩
    obtain ⟨absent, status⟩ := p.stored key co' stored
    exact ⟨fun mem => absent (tail co' mem), status⟩
  · obtain ⟨task, created⟩ := p.forked co front
    exact ⟨task, created, Or.inl created, once.1, fun key stored => (p.stored key co stored).1 front⟩

/-- A loose coroutine that is stored for a session, over whatever the session had before. -/
theorem store (p : Placed h) (l : Loose h co task) (session : Int64) :
    Placed (h.store session (some co)) := by
  have cases : ∀ key co', (h.store session (some co)).sessionIdCoroutine key = some co' →
      key = session ∧ co' = co ∨ key ≠ session ∧ h.sessionIdCoroutine key = some co' := by
    intro key co' eq
    simp only [Host.store] at eq
    by_cases same : key = session
    · rw [same, Function.update_self] at eq
      exact Or.inl ⟨same, (Option.some.inj eq).symm⟩
    · rw [Function.update_of_ne same] at eq
      exact Or.inr ⟨same, eq⟩
  refine ⟨p.runs, p.alone, p.pooled, p.poolOnce, p.forked, p.forkOnce, fun key co' eq => ?_,
    fun key key' co' eq eq' => ?_, p.fresh⟩
  · rcases cases key co' eq with ⟨-, rfl⟩ | ⟨-, eq⟩
    · exact ⟨l.forkQueue, task, l.status⟩
    · exact p.stored key co' eq
  · rcases cases key co' eq with ⟨same, rfl⟩ | ⟨-, eq⟩ <;>
      rcases cases key' _ eq' with ⟨same', own⟩ | ⟨-, eq'⟩
    · rw [same, same']
    · exact absurd eq' (l.sessions key')
    · exact absurd (own ▸ eq) (l.sessions key)
    · exact p.storedOnce key key' co' eq eq'

theorem pushFork (p : Placed h) (l : Loose h co task)
    (created : h.status co = .created (some task)) :
    Placed { h with forkQueue := h.forkQueue ++ [co] } := by
  refine ⟨p.runs, p.alone, p.pooled, p.poolOnce, fun co' mem => ?_, ?_, fun key co' stored => ?_,
    p.storedOnce, p.fresh⟩
  · rcases List.mem_append.mp mem with mem | mem
    · exact p.forked co' mem
    · rw [List.mem_singleton.mp mem]
      exact ⟨task, created⟩
  · refine List.nodup_append.mpr ⟨p.forkOnce, List.nodup_singleton _, fun a mem b mem' => ?_⟩
    rw [List.mem_singleton.mp mem']
    exact fun same => l.forkQueue (same ▸ mem)
  · obtain ⟨absent, status⟩ := p.stored key co' stored
    refine ⟨fun mem => ?_, status⟩
    rcases List.mem_append.mp mem with mem | mem
    · exact absent mem
    · exact l.sessions key (List.mem_singleton.mp mem ▸ stored)

/-! ### The running coroutine stops -/

variable (control : h.control = .running co forks)

include control

/-- The running coroutine gets a status in which it does not run. -/
theorem stop (p : Placed h) {status : Status} (stops : ∀ task, status ≠ .running task) :
    Placed { h.setStatus co status with control := .after forks } := by
  obtain ⟨-, task, running⟩ := p.runs co forks control
  refine p.setStatus (p.running_loose running) (fun co' forks' eq => ?_)
    (fun task' eq => absurd eq (stops task')) (p.others_of_running control)
  exact absurd eq (Control.after_ne forks co' forks')

theorem error (p : Placed h) : Placed { h.setStatus co .dead with control := .after forks } :=
  p.stop control nofun

theorem yieldCall (p : Placed h) (session : Int64) (task : Task) :
    Placed (h.yieldCall session co task forks) := by
  obtain ⟨thread, running, runs⟩ := p.runs co forks control
  obtain ⟨-, notForked, notStored, -⟩ := p.running_loose runs
  have stopped : Placed { h.setStatus co (.waiting task) with control := .after forks } :=
    p.stop control nofun
  have loose : Loose { h.setStatus co (.waiting task) with control := .after forks } co task :=
    ⟨Or.inr (Function.update_self ..), notForked, notStored⟩
  refine (stopped.store loose session).congr rfl rfl rfl rfl rfl ?_ rfl
  rw [Host.yieldCall, thread]
  rfl

theorem recycle (p : Placed h) : Placed (h.recycle co forks) := by
  obtain ⟨-, running, runs⟩ := p.runs co forks control
  obtain ⟨notPool, -, -, -⟩ := p.running_loose runs
  have stopped : Placed { h.setStatus co .pooled with control := .after forks } :=
    p.stop control nofun
  have pushed : Placed { h.setStatus co .pooled with
      pool := h.pool ++ [co], control := .after forks } := by
    refine ⟨stopped.runs, stopped.alone, fun co' mem => ?_, ?_, stopped.forked, stopped.forkOnce,
      stopped.stored, stopped.storedOnce, stopped.fresh⟩
    · rcases List.mem_append.mp mem with mem | mem
      · exact stopped.pooled co' mem
      · rw [List.mem_singleton.mp mem]
        exact Function.update_self ..
    · refine List.nodup_append.mpr ⟨p.poolOnce, List.nodup_singleton _, fun a mem b mem' => ?_⟩
      rw [List.mem_singleton.mp mem']
      exact fun same => notPool (same ▸ mem)
  unfold Host.recycle
  dsimp only
  split
  · exact pushed.congr rfl rfl rfl rfl rfl rfl rfl
  · exact pushed

end Placed

/-! ### Functions are started once -/

/-- The functions given to `co_create` belong to one coroutine each, and those that are started were
started once. -/
structure Tasks (h : Host) : Prop where
  numbered : ∀ co task, (h.status co).task = some task → task.number < h.tasks
  distinct : ∀ co co' task task', (h.status co).task = some task → (h.status co').task = some task' →
    task.number = task'.number → co = co'
  startsOnce : h.starts.Nodup
  started : ∀ number ∈ h.starts, number < h.tasks
  unstarted : ∀ co task, h.status co = .created (some task) → task.number ∉ h.starts

namespace Tasks

theorem empty : Tasks {} := ⟨nofun, nofun, .nil, nofun, nofun⟩

/-- A step in which no coroutine gets a function or is started. -/
theorem mono (t : Tasks h) {h' : Host}
    (tasks : ∀ co task, (h'.status co).task = some task → (h.status co).task = some task)
    (created : ∀ co task, h'.status co = .created (some task) → h.status co = .created (some task))
    (count : h.tasks ≤ h'.tasks) (starts : h'.starts = h.starts) : Tasks h' := by
  constructor
  · exact fun co task has => Nat.lt_of_lt_of_le (t.numbered co task (tasks co task has)) count
  · exact fun co co' task task' has has' =>
      t.distinct co co' task task' (tasks co task has) (tasks co' task' has')
  · rw [starts]
    exact t.startsOnce
  · rw [starts]
    exact fun number mem => Nat.lt_of_lt_of_le (t.started number mem) count
  · rw [starts]
    exact fun co task has => t.unstarted co task (created co task has)

theorem congr (t : Tasks h) {h' : Host} (status : h'.status = h.status) (tasks : h'.tasks = h.tasks)
    (starts : h'.starts = h.starts) : Tasks h' :=
  t.mono (fun co task => by rw [status]; exact id) (fun co task => by rw [status]; exact id)
    tasks.ge starts

/-- One coroutine keeps its function or loses it, and is not before its start. -/
theorem setStatus (t : Tasks h) {status : Status} (keeps : ∀ task, status.task = some task →
    (h.status co).task = some task) (created : ∀ main, status ≠ .created main) :
    Tasks (h.setStatus co status) := by
  refine t.mono (fun co' task has => ?_) (fun co' task has => ?_) (Nat.le_refl _) rfl <;>
    simp only [Host.setStatus] at has <;> by_cases same : co' = co
  · subst same
    rw [Function.update_self] at has
    exact keeps task has
  · rwa [Function.update_of_ne same] at has
  · subst same
    rw [Function.update_self] at has
    exact absurd has (created (some task))
  · rwa [Function.update_of_ne same] at has

theorem resume (t : Tasks h) (l : Loose h co task) (ok forks : Bool) :
    Tasks (h.resume co ok forks) := by
  obtain ⟨status, -, -, -, -, -, -, starts⟩ := resume_loose l ok forks
  have count := resume_tasks h co ok forks
  have has := l.has
  have kept : Tasks (h.setStatus co (.running task)) :=
    t.setStatus (by rintro _ ⟨⟩; exact has) nofun
  rcases l.status with created | waiting
  · rw [if_neg (by rw [created]; exact nofun)] at starts
    have fresh := t.unstarted co task created
    refine ⟨fun co' task' => ?_, fun co' co'' task' task'' => ?_, ?_, ?_, fun co' task' before => ?_⟩
    · rw [status, count]
      exact kept.numbered co' task'
    · rw [status]
      exact kept.distinct co' co'' task' task''
    · rw [starts]
      refine List.nodup_append.mpr ⟨t.startsOnce, List.nodup_singleton _, fun a mem b mem' => ?_⟩
      rw [List.mem_singleton.mp mem']
      exact fun same => fresh (same ▸ mem)
    · rw [starts, count]
      intro number mem
      rcases List.mem_append.mp mem with mem | mem
      · exact t.started number mem
      · rw [List.mem_singleton.mp mem]
        exact t.numbered co task has
    · rw [status] at before
      rw [starts, List.mem_append, List.mem_singleton]
      rintro (mem | same)
      · exact kept.unstarted co' task' before mem
      · have own : co' = co := by
          refine kept.distinct co' co task' task ?_ ?_ same
          · simp only [Host.setStatus, before]
            rfl
          · simp only [Host.setStatus, Function.update_self]
            rfl
        rw [own, Function.update_self] at before
        cases before
  · rw [if_pos waiting] at starts
    exact kept.congr status count starts

theorem coCreate (t : Tasks h) {request : Option (Int32 × UInt32)} {h' : Host}
    (c : Creates h request co h') : Tasks h' := by
  obtain ⟨-, -, -, -, -, -, -, starts, -⟩ := c.keeps
  have cases : ∀ co' task, (h'.status co').task = some task →
      co' = co ∧ task = ⟨h.tasks, request⟩ ∨ co' ≠ co ∧ (h.status co').task = some task := by
    intro co' task has
    rw [c.status] at has
    by_cases same : co' = co
    · rw [same, Function.update_self] at has
      exact Or.inl ⟨same, (Option.some.inj has).symm⟩
    · rw [Function.update_of_ne same] at has
      exact Or.inr ⟨same, has⟩
  refine ⟨fun co' task has => ?_, fun co₁ co₂ task₁ task₂ has₁ has₂ same => ?_, ?_, ?_,
    fun co' task before => ?_⟩
  · rw [c.tasks]
    rcases cases co' task has with ⟨-, rfl⟩ | ⟨-, has⟩
    · exact Nat.lt_succ_self _
    · exact Nat.lt_succ_of_lt (t.numbered co' task has)
  · rcases cases co₁ task₁ has₁ with ⟨rfl, rfl⟩ | ⟨-, has₁⟩ <;>
      rcases cases co₂ task₂ has₂ with ⟨rfl, rfl⟩ | ⟨-, has₂⟩
    · rfl
    · exact absurd same.symm (Nat.ne_of_lt (t.numbered co₂ task₂ has₂))
    · exact absurd same (Nat.ne_of_lt (t.numbered co₁ task₁ has₁))
    · exact t.distinct co₁ co₂ task₁ task₂ has₁ has₂ same
  · rw [starts]
    exact t.startsOnce
  · rw [starts, c.tasks]
    exact fun number mem => Nat.lt_succ_of_lt (t.started number mem)
  · rw [starts]
    rcases cases co' task (by rw [before]; rfl) with ⟨-, rfl⟩ | ⟨ne, -⟩
    · exact fun mem => Nat.lt_irrefl _ (t.started _ mem)
    · rw [c.status, Function.update_of_ne ne] at before
      exact t.unstarted co' task before

end Tasks

end Starnet.Host
