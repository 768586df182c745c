import Starnet.Host.Run

/-! The functions given to `starnet.fork`. `dispatch_message` starts what is in the fork queue before
it returns. `dispatch_socket` and the script of the service leave the queue as it is. -/

namespace Starnet.Host

/-- `starnet.fork`. -/
def fork (h : Host) : Host :=
  let (forked, h) := h.coCreate none
  { h with forkQueue := h.forkQueue ++ [forked] }

/-- `raw_dispatch_message` of a message that `unpack` rejects: the error leaves the new coroutine
without a resume, and `dispatch_message` catches it. -/
def unpackError (h : Host) (session : Int32) (source : UInt32) : Host :=
  let (co, h) := h.coCreate (some (session, source))
  { h.setContext co (some (pushInt session)) (some (pushUInt32 source)) with control := .forks }

/-- The library and the numbers of the functions that were forked, the oldest first. -/
structure Forking where
  host : Host := {}
  forked : List Nat := []

/-- A step of the library, a message that `unpack` rejects, or a call of `fork` by the script
itself, before or after `start`. -/
inductive ForkOp
  | op (op : Op)
  | unpackError (type : UInt8) (session : Int32) (source : UInt32)
  | script
  deriving DecidableEq, Repr

namespace Forking

def step (self : UInt32) (dispatch : UInt8 → Bool) (f : Forking) : ForkOp → Option Forking
  | .op (.act .fork) => (f.host.step self dispatch (.act .fork)).map fun h =>
    ⟨h, f.forked ++ [f.host.tasks]⟩
  | .op op => (f.host.step self dispatch op).map fun h => { f with host := h }
  | .unpackError type session source =>
    if f.host.control = .idle ∧ type ≠ MsgType.response ∧ type ≠ MsgType.error ∧ dispatch type then
      some { f with host := f.host.unpackError session source }
    else none
  | .script =>
    if f.host.control = .idle then some ⟨f.host.fork, f.forked ++ [f.host.tasks]⟩ else none

/-- A service that starts with an empty library. -/
def system (self : UInt32) (dispatch : UInt8 → Bool) : Transition.System Forking ForkOp where
  init f := f = {}
  step f op f' := f.step self dispatch op = some f'

/-- What is expected when an entry point returns: no forked function waits, and each was started
once, in the order of the calls of `fork`. -/
structure Started (f : Forking) : Prop where
  empty : f.host.forkQueue = []
  once : ∀ number ∈ f.forked, f.host.starts.count number = 1
  ordered : f.host.starts.filter (· ∈ f.forked) = f.forked

/-- `fork` is called in a coroutine that `dispatch_message` resumed. -/
def InMessage (f : Forking) : ForkOp → Prop
  | .op (.act .fork) => ∃ co, f.host.control = .running co true
  | .script => False
  | _ => True

end Forking

/-! ### The order of the starts -/

/-- The functions in the fork queue. -/
def queued (h : Host) : List Nat :=
  h.forkQueue.filterMap fun co => (h.status co).task.map Task.number

/-- The functions that were forked are those that were started, in this order, and those in the
queue. -/
structure Forked (h : Host) (forked : List Nat) : Prop where
  order : forked = h.starts.filter (· ∈ forked) ++ h.queued
  below : ∀ number ∈ forked, number < h.tasks
  distinct : forked.Nodup

variable {self : UInt32} {dispatch : UInt8 → Bool} {h h' : Host} {co : Nat} {task : Task}
  {forks : Bool} {forked : List Nat}

theorem queued_congr (queue : h'.forkQueue = h.forkQueue)
    (status : ∀ co ∈ h.forkQueue, h'.status co = h.status co) : h'.queued = h.queued := by
  unfold queued
  rw [queue]
  exact List.filterMap_congr fun co mem => by rw [status co mem]

namespace Forked

theorem empty : Forked {} [] := ⟨rfl, nofun, .nil⟩

/-- A step in which the queue stays and no forked function is started. -/
theorem keep (f : Forked h forked) (queue : h'.forkQueue = h.forkQueue)
    (status : ∀ co ∈ h.forkQueue, h'.status co = h.status co) (tasks : h.tasks ≤ h'.tasks)
    (starts : h'.starts.filter (· ∈ forked) = h.starts.filter (· ∈ forked)) :
    Forked h' forked := by
  refine ⟨?_, fun number mem => Nat.lt_of_lt_of_le (f.below number mem) tasks, f.distinct⟩
  rw [starts, queued_congr queue status]
  exact f.order

theorem congr (f : Forked h forked) (queue : h'.forkQueue = h.forkQueue)
    (status : h'.status = h.status) (tasks : h'.tasks = h.tasks) (starts : h'.starts = h.starts) :
    Forked h' forked :=
  f.keep queue (fun co _ => by rw [status]) tasks.ge (by rw [starts])

/-- A coroutine outside the queue whose function is not started was not forked. -/
theorem unforked (f : Forked h forked) (t : Tasks h) (l : Loose h co task)
    (created : h.status co = .created (some task)) : task.number ∉ forked := by
  intro mem
  rw [f.order] at mem
  rcases List.mem_append.mp mem with started | waits
  · exact t.unstarted co task created (List.mem_of_mem_filter started)
  · obtain ⟨co', queued, number⟩ := List.mem_filterMap.mp waits
    obtain ⟨task', has, same⟩ := Option.map_eq_some_iff.mp number
    exact l.forkQueue (t.distinct co' co task' task has l.has same ▸ queued)

theorem resume (f : Forked h forked) (t : Tasks h) (l : Loose h co task) (ok forks : Bool) :
    Forked (h.resume co ok forks) forked := by
  obtain ⟨status, -, -, -, queue, -, -, starts⟩ := resume_loose l ok forks
  refine f.keep queue (fun co' mem => ?_) (resume_tasks h co ok forks).ge ?_
  · rw [status, Function.update_of_ne]
    exact fun same => l.forkQueue (same ▸ mem)
  · rw [starts]
    split
    · rfl
    · next waits =>
      have created : h.status co = .created (some task) := l.status.resolve_right waits
      have absent := f.unforked t l created
      rw [List.filter_append, List.filter_cons_of_neg (by simpa using absent), List.filter_nil,
        List.append_nil]

theorem coCreate (f : Forked h forked) {request : Option (Int32 × UInt32)}
    (c : Creates h request co h') : Forked h' forked := by
  obtain ⟨-, -, queue, -, -, -, -, starts, -⟩ := c.keeps
  refine f.keep queue (fun co' mem => ?_) (c.tasks ▸ Nat.le_succ _) (by rw [starts])
  rw [c.status, Function.update_of_ne]
  exact fun same => c.loose.forkQueue (queue ▸ same ▸ mem)

/-- The running coroutine is not in the queue. -/
theorem setStatus (f : Forked h forked) (outside : co ∉ h.forkQueue) (status : Status) :
    Forked (h.setStatus co status) forked := by
  refine f.keep rfl (fun co' mem => Function.update_of_ne ?_ ..) (Nat.le_refl _) rfl
  exact fun same => outside (same ▸ mem)

theorem recycle (f : Forked h forked) (outside : co ∉ h.forkQueue) (forks : Bool) :
    Forked (h.recycle co forks) forked := by
  unfold Host.recycle
  dsimp only
  split <;> exact (f.setStatus outside .pooled).congr rfl rfl rfl rfl

/-- A function that is not in the queue gets a context and is started. -/
theorem handle (f : Forked h forked) (good : Good h) (request : Option (Int32 × UInt32))
    (session address : Option Int64) (ok forks : Bool) :
    Forked (((h.coCreate request).2.setContext (h.coCreate request).1 session address).resume
      (h.coCreate request).1 ok forks) forked := by
  have c := good.placed.coCreate request
  have context : Forked ((h.coCreate request).2.setContext (h.coCreate request).1 session address)
      forked := (f.coCreate c).congr rfl rfl rfl rfl
  exact context.resume ((good.coCreate request).tasks.congr rfl rfl rfl)
    ⟨c.loose.status, c.loose.forkQueue, c.loose.sessions⟩ ok forks

theorem rawDispatchMessage (f : Forked h forked) (good : Good h) (type : UInt8) (session : Int32)
    (source : UInt32) : Forked (h.rawDispatchMessage dispatch type session source) forked := by
  have wake : ∀ key ok, Forked (h.wake key ok) forked := by
    intro key ok
    unfold Host.wake
    split
    · next co stored =>
      obtain ⟨-, task, loose⟩ := good.placed.take stored
      have taken : Forked { h with
          sessionIdCoroutine := Function.update h.sessionIdCoroutine key none } forked :=
        f.congr rfl rfl rfl rfl
      exact taken.resume (good.tasks.congr rfl rfl rfl) loose ok true
    · exact f.congr rfl rfl rfl rfl
  unfold Host.rawDispatchMessage
  split
  · exact wake _ true
  split
  · exact wake _ false
  split
  · exact f.handle good ..
  · exact f.congr rfl rfl rfl rfl

/-- The front of the queue is started. -/
theorem nextFork (f : Forked h forked) (good : Good h) : Forked h.nextFork forked := by
  unfold Host.nextFork
  split
  · exact f.congr rfl rfl rfl rfl
  · next co rest queue =>
    obtain ⟨-, task, created, loose⟩ := good.placed.takeFork queue
    obtain ⟨status, -, -, -, queue', -, -, starts⟩ := resume_loose loose false true
    rw [if_neg (by rw [show Host.status _ co = _ from created]; exact nofun)] at starts
    have old : h.queued = task.number :: h.queued.tail := by
      unfold queued
      rw [queue, List.filterMap_cons, created]
      rfl
    have rest' : (Host.resume { h with forkQueue := rest } co false true).queued = h.queued.tail := by
      unfold queued
      rw [queue', queue, List.filterMap_cons, created]
      refine List.filterMap_congr fun co' mem => ?_
      rw [status, Function.update_of_ne]
      exact fun same => loose.forkQueue (same ▸ mem)
    have front : task.number ∈ forked := by
      rw [f.order, old]
      exact List.mem_append_right _ (List.mem_cons_self ..)
    refine ⟨?_, ?_, f.distinct⟩
    · rw [starts, rest', List.filter_append, List.filter_cons_of_pos (by simpa using front),
        List.filter_nil, List.append_assoc, List.singleton_append, ← old]
      exact f.order
    · rw [resume_tasks]
      exact f.below

/-- A new function at the end of the queue. -/
theorem fork (f : Forked h forked) (good : Good h) : Forked h.fork (forked ++ [h.tasks]) := by
  have c := good.placed.coCreate none
  obtain ⟨-, -, queue, -, -, -, -, starts, -⟩ := c.keeps
  have fresh : h.tasks ∉ forked := fun mem => Nat.lt_irrefl _ (f.below _ mem)
  have started : h.fork.starts.filter (· ∈ forked ++ [h.tasks]) =
      h.starts.filter (· ∈ forked) := by
    show (h.coCreate none).2.starts.filter _ = _
    rw [starts]
    refine List.filter_congr fun number mem => ?_
    have ne : number ≠ h.tasks := Nat.ne_of_lt (good.tasks.started number mem)
    simp [ne]
  have waits : h.fork.queued = h.queued ++ [h.tasks] := by
    have same : ∀ co' ∈ h.forkQueue, (h.coCreate none).2.status co' = h.status co' := by
      intro co' mem
      rw [c.status, Function.update_of_ne]
      exact fun same => c.loose.forkQueue (queue ▸ same ▸ mem)
    show ((h.coCreate none).2.forkQueue ++ [(h.coCreate none).1]).filterMap
      (fun co => ((h.coCreate none).2.status co).task.map Task.number) = _
    rw [List.filterMap_append, List.filterMap_cons, c.status, Function.update_self, ← c.status]
    exact congrArg (· ++ [h.tasks]) (queued_congr queue same)
  refine ⟨?_, fun number mem => ?_, ?_⟩
  · rw [started, waits, ← List.append_assoc, ← f.order]
  · show number < (h.coCreate none).2.tasks
    rw [c.tasks]
    rcases List.mem_append.mp mem with mem | mem
    · exact Nat.lt_succ_of_lt (f.below number mem)
    · rw [List.mem_singleton.mp mem]
      exact Nat.lt_succ_self _
  · refine List.nodup_append.mpr ⟨f.distinct, List.nodup_singleton _, fun a mem b mem' => ?_⟩
    rw [List.mem_singleton.mp mem']
    exact fun same => fresh (same ▸ mem)

/-- What a coroutine does, but for a call of `fork`. -/
theorem execute (f : Forked h forked) (good : Good h) (control : h.control = .running co forks)
    (a : Act) (other : a ≠ .fork) : Forked (h.execute self co task forks a) forked := by
  obtain ⟨-, running, runs⟩ := good.placed.runs co forks control
  obtain ⟨-, outside, -, -⟩ := good.placed.running_loose runs
  cases a with
  | call args =>
    rcases args with _ | ⟨addr, type, msg⟩ <;>
      exact (f.setStatus outside (.waiting task)).congr rfl rfl rfl rfl
  | sleep => exact (f.setStatus outside (.waiting task)).congr rfl rfl rfl rfl
  | fork => exact absurd rfl other
  | timeout =>
    have numbered : Forked h.genid.2 forked := f.congr rfl rfl rfl rfl
    exact (numbered.coCreate (good.genid.placed.coCreate none)).congr rfl rfl rfl rfl
  | ret buff =>
    have same := ret_still (h := h) self task buff
    exact f.congr same.forkQueue same.status same.tasks same.starts
  | response =>
    have same := response_still (h := h) task
    exact f.congr same.forkQueue same.status same.tasks same.starts
  | closure i buff =>
    have same := callClosure_still (h := h) self i buff
    exact f.congr same.forkQueue same.status same.tasks same.starts
  | finish => exact f.recycle outside forks
  | error => exact (f.setStatus outside .dead).congr rfl rfl rfl rfl

theorem step (f : Forked h forked) (good : Good h) {op : Op} (other : op ≠ .act .fork)
    (taken : h.step self dispatch op = some h') : Forked h' forked := by
  obtain ⟨type, session, source, -, rfl, rfl⟩ | ⟨-, rfl, rfl⟩ | ⟨-, rfl, rfl⟩ |
    ⟨co, forks, task, a, control, -, rfl, rfl⟩ := step_cases taken
  · exact f.rawDispatchMessage good type session source
  · exact f.handle good ..
  · exact f.nextFork good
  · exact f.execute good control a fun eq => other (congrArg Op.act eq)

end Forked

/-! ### The queue between the entry points -/

/-- The queue is empty unless `dispatch_message` is going to start what is in it. -/
def Drained (h : Host) : Prop :=
  h.control = .forks ∨ (∃ co, h.control = .running co true) ∨ h.forkQueue = []

theorem Drained.resume (l : Loose h co task) (d : h.forkQueue = [] ∨ forks = true) (ok : Bool) :
    Drained (h.resume co ok forks) := by
  obtain ⟨-, control, -, -, queue, -, -, -⟩ := resume_loose l ok forks
  rcases d with empty | rfl
  · exact Or.inr (Or.inr (queue.trans empty))
  · exact Or.inr (Or.inl ⟨co, control⟩)

theorem Drained.handle (placed : Placed h) (request : Option (Int32 × UInt32))
    (session address : Option Int64) (ok forks : Bool) (d : h.forkQueue = [] ∨ forks = true) :
    Drained (((h.coCreate request).2.setContext (h.coCreate request).1 session address).resume
      (h.coCreate request).1 ok forks) := by
  have c := placed.coCreate request
  obtain ⟨-, -, queue, -⟩ := c.keeps
  have loose : Loose ((h.coCreate request).2.setContext (h.coCreate request).1 session address)
      (h.coCreate request).1 ⟨h.tasks, request⟩ :=
    ⟨c.loose.status, c.loose.forkQueue, c.loose.sessions⟩
  exact Drained.resume loose (d.imp_left queue.trans) ok

theorem Drained.rawDispatchMessage (placed : Placed h) (type : UInt8) (session : Int32)
    (source : UInt32) : Drained (h.rawDispatchMessage dispatch type session source) := by
  have wake : ∀ key ok, Drained (h.wake key ok) := by
    intro key ok
    unfold Host.wake
    split
    · next co stored =>
      obtain ⟨-, task, loose⟩ := placed.take stored
      exact Drained.resume loose (Or.inr rfl) ok
    · exact Or.inl rfl
  unfold Host.rawDispatchMessage
  split
  · exact wake _ true
  split
  · exact wake _ false
  split
  · exact Drained.handle placed _ _ _ _ _ (Or.inr rfl)
  · exact Or.inl rfl

theorem Drained.nextFork (placed : Placed h) : Drained h.nextFork := by
  unfold Host.nextFork
  split
  · next queue => exact Or.inr (Or.inr queue)
  · next co rest queue =>
    obtain ⟨-, task, -, loose⟩ := placed.takeFork queue
    exact Drained.resume loose (Or.inr rfl) false

theorem recycle_queue (h : Host) (co : Nat) (forks : Bool) :
    (h.recycle co forks).control = .after forks ∧ (h.recycle co forks).forkQueue = h.forkQueue := by
  unfold recycle
  dsimp only
  split <;> exact ⟨rfl, rfl⟩

/-- What a coroutine leaves: it goes on or stops, and the queue is as it was. -/
theorem execute_queue (self : UInt32) (task : Task) (good : Good h)
    (control : h.control = .running co forks) (a : Act) (other : a ≠ .fork) :
    ((h.execute self co task forks a).control = .running co forks ∨
      (h.execute self co task forks a).control = .after forks) ∧
    (h.execute self co task forks a).forkQueue = h.forkQueue := by
  cases a with
  | call args => rcases args with _ | ⟨addr, type, msg⟩ <;> exact ⟨Or.inr rfl, rfl⟩
  | sleep | error => exact ⟨Or.inr rfl, rfl⟩
  | fork => exact absurd rfl other
  | timeout =>
    obtain ⟨control', -, queue, -⟩ := (good.genid.placed.coCreate none).keeps
    exact ⟨Or.inl (control'.trans control), queue⟩
  | ret buff =>
    have same := ret_still (h := h) self task buff
    exact ⟨Or.inl (same.control.trans control), same.forkQueue⟩
  | response =>
    have same := response_still (h := h) task
    exact ⟨Or.inl (same.control.trans control), same.forkQueue⟩
  | closure i buff =>
    have same := callClosure_still (h := h) self i buff
    exact ⟨Or.inl (same.control.trans control), same.forkQueue⟩
  | finish =>
    obtain ⟨control', queue⟩ := recycle_queue h co forks
    exact ⟨Or.inr control', queue⟩

theorem Drained.step (d : Drained h) (good : Good h) {op : Op} (other : op ≠ .act .fork)
    (taken : h.step self dispatch op = some h') : Drained h' := by
  obtain ⟨type, session, source, -, rfl, rfl⟩ | ⟨idle, rfl, rfl⟩ | ⟨-, rfl, rfl⟩ |
    ⟨co, forks, task, a, control, -, rfl, rfl⟩ := step_cases taken
  · exact Drained.rawDispatchMessage good.placed ..
  · have empty : h.forkQueue = [] := by
      rcases d with looping | ⟨co, running⟩ | empty
      · rw [idle] at looping
        cases looping
      · rw [idle] at running
        cases running
      · exact empty
    exact Drained.handle good.placed _ _ _ _ _ (Or.inl empty)
  · exact Drained.nextFork good.placed
  · obtain ⟨control', queue⟩ := execute_queue self task good control a
      fun eq => other (congrArg Op.act eq)
    cases forks with
    | true => exact control'.elim (fun running => Or.inr (Or.inl ⟨co, running⟩)) Or.inl
    | false =>
      refine Or.inr (Or.inr (queue.trans ?_))
      rcases d with looping | ⟨co', running⟩ | empty
      · rw [control] at looping
        cases looping
      · rw [control] at running
        cases running
      · exact empty

/-! ### Runs -/

namespace Forking

variable {f f' : Forking}

/-- What a step can be. -/
theorem step_cases {op : ForkOp} (taken : f.step self dispatch op = some f') :
    (∃ op', op = .op op' ∧ op' ≠ .act .fork ∧ f.host.step self dispatch op' = some f'.host ∧
      f'.forked = f.forked) ∨
    (((∃ co forks, op = .op (.act .fork) ∧ f.host.control = .running co forks) ∨ op = .script) ∧
      f' = ⟨f.host.fork, f.forked ++ [f.host.tasks]⟩) ∨
    ∃ type session source, op = .unpackError type session source ∧ f.host.control = .idle ∧
      f' = { f with host := f.host.unpackError session source } := by
  cases op with
  | op op' =>
    by_cases same : op' = .act .fork
    · subst same
      obtain ⟨h, next, rfl⟩ := Option.map_eq_some_iff.mp taken
      obtain ⟨_, _, _, _, op, _⟩ | ⟨_, op, _⟩ | ⟨_, op, _⟩ | ⟨co, forks, task, a, control, _, op, rfl⟩ :=
        Host.step_cases next
      · cases op
      · cases op
      · cases op
      · cases op
        exact Or.inr (Or.inl ⟨Or.inl ⟨co, forks, rfl, control⟩, rfl⟩)
    · have lifted : (f.host.step self dispatch op').map (fun h => { f with host := h }) = some f' := by
        rw [← taken]
        unfold step
        split
        · next eq => exact absurd (ForkOp.op.inj eq) same
        · next eq => rw [ForkOp.op.inj eq]
        · next eq => cases eq
        · next eq => cases eq
      obtain ⟨h, next, rfl⟩ := Option.map_eq_some_iff.mp lifted
      exact Or.inl ⟨op', rfl, same, next, rfl⟩
  | unpackError type session source =>
    obtain ⟨⟨idle, -⟩, eq⟩ := Option.ite_none_right_eq_some.mp taken
    exact Or.inr (Or.inr ⟨type, session, source, rfl, idle, (Option.some.inj eq).symm⟩)
  | script =>
    obtain ⟨idle, eq⟩ := Option.ite_none_right_eq_some.mp taken
    exact Or.inr (Or.inl ⟨Or.inr rfl, (Option.some.inj eq).symm⟩)

theorem unpackError_good (good : Good h) (idle : h.control = .idle) (session : Int32)
    (source : UInt32) : Good (h.unpackError session source) := by
  obtain ⟨control, -⟩ := (good.placed.coCreate (some (session, source))).keeps
  have context := good.context (some (session, source)) fun _ => ⟨session, source, rfl, rfl, rfl⟩
  exact context.setControl (idle_of_eq (control.trans idle) nofun) nofun

/-- The library under the functions that were forked. -/
structure Sound (f : Forking) : Prop where
  good : Good f.host
  forked : Forked f.host f.forked

theorem Sound.step (s : Sound f) {op : ForkOp} (taken : f.step self dispatch op = some f') :
    Sound f' := by
  obtain ⟨op', -, other, next, same⟩ | ⟨-, rfl⟩ | ⟨type, session, source, -, idle, rfl⟩ :=
    step_cases taken
  · exact ⟨s.good.step next, same ▸ s.forked.step s.good other next⟩
  · exact ⟨s.good.fork, s.forked.fork s.good⟩
  · refine ⟨unpackError_good s.good idle session source, ?_⟩
    exact (s.forked.coCreate (s.good.placed.coCreate _)).congr rfl rfl rfl rfl

theorem sound_of_run {tr : List ForkOp} (run : (system self dispatch).Run f tr) : Sound f := by
  induction run with
  | init start => exact start ▸ ⟨.empty, .empty⟩
  | step _ taken sound => exact sound.step taken

theorem drained_of_run {tr : List ForkOp}
    (run : ((system self dispatch).restrict InMessage).Run f tr) : f.host.Drained := by
  induction run with
  | init start => exact start ▸ Or.inr (Or.inr rfl)
  | step run taken drained =>
    have sound := sound_of_run run.of_restrict
    obtain ⟨taken, inMessage⟩ := taken
    obtain ⟨op', -, other, next, -⟩ | ⟨⟨co, forks, rfl, control⟩ | rfl, rfl⟩ |
      ⟨type, session, source, -, -, rfl⟩ := step_cases taken
    · exact drained.step sound.good other next
    · obtain ⟨co', running⟩ := inMessage
      obtain ⟨control', -⟩ := (sound.good.placed.coCreate none).keeps
      exact Or.inr (Or.inl ⟨co', control'.trans running⟩)
    · exact inMessage.elim
    · exact Or.inl rfl

/-- Whenever an entry point returns, the functions that were forked are started, if `fork` is called
under `dispatch_message` only. -/
theorem started_of_returned {tr : List ForkOp}
    (run : ((system self dispatch).restrict InMessage).Run f tr)
    (returned : f.host.control = .idle) : Started f := by
  have sound := sound_of_run run.of_restrict
  have empty : f.host.forkQueue = [] := by
    rcases drained_of_run run with looping | ⟨co, running⟩ | empty
    · rw [returned] at looping
      cases looping
    · rw [returned] at running
      cases running
    · exact empty
  have ordered : f.host.starts.filter (· ∈ f.forked) = f.forked := by
    have order := sound.forked.order
    rw [queued, empty, List.filterMap_nil, List.append_nil] at order
    exact order.symm
  refine ⟨empty, fun number mem => ?_, ordered⟩
  have started : number ∈ f.host.starts := by
    rw [← ordered] at mem
    exact List.mem_of_mem_filter mem
  exact List.count_eq_one_of_mem sound.good.tasks.startsOnce started

theorem run_next {tr : List ForkOp} (op : ForkOp)
    (run : ((system self dispatch).restrict InMessage).Run f tr) (inMessage : InMessage f op)
    (next : f.step self dispatch op = some f') :
    ((system self dispatch).restrict InMessage).Run f' (tr ++ [op]) := run.step ⟨next, inMessage⟩

/-- A handler forks twice and raises an error, and the first forked function forks once more. -/
theorem started_of_returned_error : ∃ (f : Forking) (tr : List ForkOp),
    ((system 9 (· == MsgType.lua)).restrict InMessage).Run f tr ∧ f.forked = [1, 2, 3] ∧
    Started f := by
  have start : ((system 9 (· == MsgType.lua)).restrict InMessage).Run {} [] := .init rfl
  have handler := run_next (.op (.message MsgType.lua 5 7)) start trivial rfl
  have once := run_next (.op (.act .fork)) handler ⟨0, rfl⟩ rfl
  have twice := run_next (.op (.act .fork)) once ⟨0, rfl⟩ rfl
  have raised := run_next (.op (.act .error)) twice trivial rfl
  have first := run_next (.op .nextFork) raised trivial rfl
  have again := run_next (.op (.act .fork)) first ⟨1, rfl⟩ rfl
  have second := run_next (.op .nextFork) (run_next (.op (.act .finish)) again trivial rfl) trivial rfl
  have third := run_next (.op .nextFork) (run_next (.op (.act .finish)) second trivial rfl) trivial rfl
  have returns := run_next (.op .nextFork) (run_next (.op (.act .finish)) third trivial rfl) trivial rfl
  exact ⟨_, _, returns, rfl, started_of_returned returns rfl⟩

/-- The function that a script gives to `start` forks and returns. -/
theorem not_started_start : ¬ ∀ (f : Forking) (tr : List ForkOp),
    (system 9 (· == MsgType.lua)).Run f tr → f.host.control = .idle → Started f := by
  intro all
  have start : (system 9 (· == MsgType.lua)).Run {} [] := .init rfl
  have steps : [.op .socket, .op (.act .fork), .op (.act .finish)].foldlM
      (step 9 (· == MsgType.lua)) {} = some _ := rfl
  have returns := start.foldlM (fun _ _ _ => id) steps
  exact absurd (all _ _ returns rfl).empty (List.cons_ne_nil _ _)

end Forking

end Starnet.Host
