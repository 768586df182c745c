import Starnet.Host.Coroutine

/-! The replies of `starnet.ret` and of the closures of `starnet.response`. The session and the
source of a request stay with the coroutine that handles it until it replies, hands them to a
closure or is recycled, so that every reply is for the request of the function that called `ret` or
`response`. -/

namespace Starnet.Host

variable {h h' : Host} {co : Nat} {task : Task} {forks : Bool}

theorem toInt32_pushInt (x : Int32) : (pushInt x).toInt32 = x := by
  simp [pushInt]

theorem toUInt32_pushUInt32 (x : UInt32) : (pushUInt32 x).toInt32.toUInt32 = x := by
  apply UInt32.toBitVec_inj.mp
  show BitVec.signExtend 32 (BitVec.setWidth 64 x.toBitVec) = x.toBitVec
  rw [BitVec.signExtend_eq_setWidth_of_le _ (by decide),
    BitVec.setWidth_setWidth_of_le _ (by decide), BitVec.setWidth_eq]

/-- The session and the address that a request leaves in the tables. -/
def Task.Asks (task : Task) (session : Int64) (address : Option Int64) : Prop :=
  ∃ σ source, task.request = some (σ, source) ∧ session = pushInt σ ∧
    address = some (pushUInt32 source)

/-- A function has no reply and no closure yet. -/
def Unanswered (h : Host) (task : Task) : Prop :=
  (∀ r ∈ h.replies, r.task.number ≠ task.number) ∧ ∀ c ∈ h.closures, c.task.number ≠ task.number

/-- The replies are for the requests of their functions, and what can still be sent is owed. -/
structure Replies (h : Host) : Prop where
  fits : ∀ r ∈ h.replies, r.task.request = some (r.session, r.toId)
  once : (h.replies.map (·.task.number)).Nodup
  closuresOnce : (h.closures.map (·.task.number)).Nodup
  repliesBelow : ∀ r ∈ h.replies, r.task.number < h.tasks
  closuresBelow : ∀ c ∈ h.closures, c.task.number < h.tasks
  unsent : ∀ c ∈ h.closures, c.sent = false → c.task.Asks c.session c.address ∧
    ∀ r ∈ h.replies, r.task.number ≠ c.task.number
  owed : ∀ co task session, (h.status co).task = some task → h.sessionCoroutineId co = some session →
    session ≠ 0 → task.Asks session (h.sessionCoroutineAddress co) ∧ Unanswered h task
  addressed : ∀ co session, h.sessionCoroutineId co = some session →
    (h.sessionCoroutineAddress co).isSome
  unused : ∀ co, h.status co = .pooled ∨ h.created ≤ co → h.sessionCoroutineAddress co = none

namespace Replies

theorem empty : Replies {} :=
  ⟨nofun, .nil, .nil, nofun, nofun, nofun, nofun, nofun, fun _ _ => rfl⟩

/-- A step in which no coroutine gets a function, a context or a place in the pool. -/
theorem mono (r : Replies h) (replies : h'.replies = h.replies) (closures : h'.closures = h.closures)
    (count : h.tasks ≤ h'.tasks)
    (id : ∀ co session, h'.sessionCoroutineId co = some session →
      h.sessionCoroutineId co = some session)
    (address : h'.sessionCoroutineAddress = h.sessionCoroutineAddress)
    (tasks : ∀ co task, (h'.status co).task = some task → (h.status co).task = some task)
    (unused : ∀ co, h'.status co = .pooled ∨ h'.created ≤ co →
      h.status co = .pooled ∨ h.created ≤ co) : Replies h' := by
  constructor
  · rw [replies]
    exact r.fits
  · rw [replies]
    exact r.once
  · rw [closures]
    exact r.closuresOnce
  · rw [replies]
    exact fun reply mem => Nat.lt_of_lt_of_le (r.repliesBelow reply mem) count
  · rw [closures]
    exact fun c mem => Nat.lt_of_lt_of_le (r.closuresBelow c mem) count
  · rw [replies, closures]
    exact r.unsent
  · intro co task session has context nonzero
    rw [address, Unanswered, replies, closures]
    exact r.owed co task session (tasks co task has) (id co session context) nonzero
  · rw [address]
    exact fun co session context => r.addressed co session (id co session context)
  · rw [address]
    exact fun co status => r.unused co (unused co status)

theorem congr (r : Replies h) (replies : h'.replies = h.replies)
    (closures : h'.closures = h.closures) (tasks : h'.tasks = h.tasks)
    (id : h'.sessionCoroutineId = h.sessionCoroutineId)
    (address : h'.sessionCoroutineAddress = h.sessionCoroutineAddress)
    (status : h'.status = h.status) (created : h'.created = h.created) : Replies h' :=
  r.mono replies closures tasks.ge (fun _ _ => by rw [id]; exact fun has => has) address
    (fun _ _ => by rw [status]; exact fun has => has)
    fun _ => by rw [status, created]; exact fun unused => unused

/-- A status outside the pool, with the function that the coroutine has or none. -/
theorem setStatus (r : Replies h) {status : Status} (ne : status ≠ .pooled)
    (keeps : ∀ task, status.task = some task → (h.status co).task = some task) :
    Replies (h.setStatus co status) := by
  refine r.mono rfl rfl (Nat.le_refl _) (fun _ _ => id) rfl (fun co' task has => ?_)
    (fun co' unused => ?_)
  · simp only [Host.setStatus] at has
    by_cases same : co' = co
    · subst same
      rw [Function.update_self] at has
      exact keeps task has
    · rwa [Function.update_of_ne same] at has
  · refine unused.imp_left fun pooled => ?_
    simp only [Host.setStatus] at pooled
    by_cases same : co' = co
    · subst same
      rw [Function.update_self] at pooled
      exact absurd pooled ne
    · rwa [Function.update_of_ne same] at pooled

theorem resume (r : Replies h) (l : Loose h co task) (ok forks : Bool) :
    Replies (h.resume co ok forks) := by
  have has := l.has
  have running : Replies (h.setStatus co (.running task)) :=
    r.setStatus nofun (by rintro _ ⟨⟩; exact has)
  unfold Host.resume
  rcases l.status with created | waiting
  · simp only [created]
    exact running.congr rfl rfl rfl rfl rfl rfl rfl
  · simp only [waiting]
    exact running.congr rfl rfl rfl rfl rfl rfl rfl

/-- A coroutine from `co_create` has no context. -/
theorem coCreate (r : Replies h) {request : Option (Int32 × UInt32)} (c : Creates h request co h') :
    Replies h' := by
  obtain ⟨-, -, -, -, idSame, addressSame, closuresSame, -, repliesSame, -⟩ := c.keeps
  have noAddress := r.unused co c.unused
  constructor
  · rw [repliesSame]
    exact r.fits
  · rw [repliesSame]
    exact r.once
  · rw [closuresSame]
    exact r.closuresOnce
  · rw [repliesSame, c.tasks]
    exact fun reply mem => Nat.lt_succ_of_lt (r.repliesBelow reply mem)
  · rw [closuresSame, c.tasks]
    exact fun closure mem => Nat.lt_succ_of_lt (r.closuresBelow closure mem)
  · rw [repliesSame, closuresSame]
    exact r.unsent
  · intro co' task' session has context nonzero
    rw [idSame] at context
    by_cases same : co' = co
    · have some := r.addressed co' session context
      rw [same, noAddress] at some
      cases some
    · rw [c.status, Function.update_of_ne same] at has
      rw [addressSame, Unanswered, repliesSame, closuresSame]
      exact r.owed co' task' session has context nonzero
  · rw [idSame, addressSame]
    exact r.addressed
  · intro co' unused
    rw [addressSame]
    by_cases same : co' = co
    · rw [same]
      exact noAddress
    · rw [c.status, Function.update_of_ne same] at unused
      exact r.unused co' (unused.imp_right c.created.trans)

/-- The context of a new function: that of its request, or one without a session. -/
theorem setContext (r : Replies h) (has : (h.status co).task = some task) (born : co < h.created)
    {session address : Int64} (asks : session ≠ 0 → task.Asks session (some address) ∧ Unanswered h task) :
    Replies (h.setContext co (some session) (some address)) := by
  refine ⟨r.fits, r.once, r.closuresOnce, r.repliesBelow, r.closuresBelow, r.unsent, ?_, ?_, ?_⟩
  · intro co' task' session' has' context nonzero
    simp only [Host.setContext] at has' context ⊢
    by_cases same : co' = co
    · subst same
      rw [Function.update_self] at context ⊢
      cases context
      cases has.symm.trans has'
      exact asks nonzero
    · rw [Function.update_of_ne same] at context ⊢
      exact r.owed co' task' session' has' context nonzero
  · intro co' session' context
    simp only [Host.setContext] at context ⊢
    by_cases same : co' = co
    · rw [same, Function.update_self]
      rfl
    · rw [Function.update_of_ne same] at context ⊢
      exact r.addressed co' session' context
  · intro co' unused
    have ne : co' ≠ co := by
      rintro rfl
      rcases unused with pooled | fresh
      · have pooled : h.status co' = .pooled := pooled
        rw [pooled] at has
        cases has
      · exact Nat.lt_irrefl _ (Nat.lt_of_lt_of_le born fresh)
    exact (Function.update_of_ne ne ..).trans (r.unused co' unused)

/-- The coroutine gives up its context. -/
theorem dropId (r : Replies h) (co : Nat) :
    Replies { h with sessionCoroutineId := Function.update h.sessionCoroutineId co none } := by
  refine r.mono rfl rfl (Nat.le_refl _) (fun co' session context => ?_) rfl (fun _ _ => id)
    fun _ => id
  dsimp only at context
  by_cases same : co' = co
  · rw [same, Function.update_self] at context
    cases context
  · rwa [Function.update_of_ne same] at context

/-- A reply for a request that has none, when no coroutine and no other closure owes it. -/
theorem respond (r : Replies h) {address : Option Int64} {session : Int64}
    (asks : task.Asks session address) (below : task.number < h.tasks)
    (fresh : ∀ reply ∈ h.replies, reply.task.number ≠ task.number)
    (owed : ∀ co task' session, (h.status co).task = some task' →
      h.sessionCoroutineId co = some session → session ≠ 0 → task'.number ≠ task.number)
    (unsent : ∀ c ∈ h.closures, c.sent = false → c.task.number ≠ task.number) (self : UInt32)
    (buff : List UInt8) : Replies (h.respond self address session buff task) := by
  obtain ⟨σ, source, request, rfl, rfl⟩ := asks
  rw [Host.respond]
  refine ⟨fun reply mem => ?_, ?_, r.closuresOnce, fun reply mem => ?_, r.closuresBelow,
    fun c mem notSent => ?_, fun co' task' session' has context nonzero => ?_, r.addressed, r.unused⟩
  · rcases List.mem_append.mp mem with mem | mem
    · exact r.fits reply mem
    · rw [List.mem_singleton.mp mem, request, toInt32_pushInt, toUInt32_pushUInt32]
  · rw [List.map_append]
    refine List.nodup_append.mpr ⟨r.once, List.nodup_singleton _, fun a mem b mem' => ?_⟩
    obtain ⟨reply, old, rfl⟩ := List.mem_map.mp mem
    rw [List.mem_singleton.mp mem']
    exact fresh reply old
  · rcases List.mem_append.mp mem with mem | mem
    · exact r.repliesBelow reply mem
    · rw [List.mem_singleton.mp mem]
      exact below
  · refine ⟨(r.unsent c mem notSent).1, fun reply mem' => ?_⟩
    rcases List.mem_append.mp mem' with mem' | mem'
    · exact (r.unsent c mem notSent).2 reply mem'
    · rw [List.mem_singleton.mp mem']
      exact Ne.symm (unsent c mem notSent)
  · obtain ⟨asks, unanswered⟩ := r.owed co' task' session' has context nonzero
    refine ⟨asks, fun reply mem => ?_, unanswered.2⟩
    rcases List.mem_append.mp mem with mem | mem
    · exact unanswered.1 reply mem
    · rw [List.mem_singleton.mp mem]
      exact Ne.symm (owed co' task' session' has context nonzero)

/-- The session and the address of the running coroutine go to a reply or to a closure. -/
theorem ret (r : Replies h) (t : Tasks h) (thread : h.runningThread = some co)
    (running : h.status co = .running task) (self : UInt32) (buff : List UInt8) :
    Replies (h.ret self task buff) := by
  have has : (h.status co).task = some task := by rw [running]; rfl
  unfold Host.ret
  split
  · exact r
  next co' thread' =>
  cases thread.symm.trans thread'
  split
  · exact r
  next session context =>
  dsimp only
  split
  · exact r.dropId co
  next nonzero =>
  obtain ⟨asks, unanswered⟩ := r.owed co task session has context nonzero
  refine (r.dropId co).respond asks (t.numbered co task has) unanswered.1
    (fun co' task' session' has' context' _ same => ?_) (fun c mem _ => unanswered.2 c mem) self buff
  have own : co' = co := t.distinct co' co task' task has' has same
  simp only [own, Function.update_self] at context'
  cases context'

theorem response (r : Replies h) (t : Tasks h) (thread : h.runningThread = some co)
    (running : h.status co = .running task) : Replies (h.response task) := by
  have has : (h.status co).task = some task := by rw [running]; rfl
  unfold Host.response
  split
  · exact r
  next co' thread' =>
  cases thread.symm.trans thread'
  split
  · exact r
  next session context =>
  dsimp only
  split
  · exact r.dropId co
  next nonzero =>
  obtain ⟨asks, unanswered⟩ := r.owed co task session has context nonzero
  have dropped := r.dropId co
  refine ⟨r.fits, r.once, ?_, r.repliesBelow, fun c mem => ?_, fun c mem notSent => ?_,
    fun co' task' session' has' context' nonzero => ?_, dropped.addressed, r.unused⟩
  · rw [List.map_append]
    refine List.nodup_append.mpr ⟨r.closuresOnce, List.nodup_singleton _, fun a mem b mem' => ?_⟩
    obtain ⟨c, old, rfl⟩ := List.mem_map.mp mem
    rw [List.mem_singleton.mp mem']
    exact unanswered.2 c old
  · rcases List.mem_append.mp mem with mem | mem
    · exact r.closuresBelow c mem
    · rw [List.mem_singleton.mp mem]
      exact t.numbered co task has
  · rcases List.mem_append.mp mem with mem | mem
    · exact r.unsent c mem notSent
    · rw [List.mem_singleton.mp mem]
      exact ⟨asks, unanswered.1⟩
  · obtain ⟨asks', unanswered'⟩ := dropped.owed co' task' session' has' context' nonzero
    refine ⟨asks', unanswered'.1, fun c mem => ?_⟩
    rcases List.mem_append.mp mem with mem | mem
    · exact unanswered'.2 c mem
    · rw [List.mem_singleton.mp mem]
      intro same
      have own : co = co' := t.distinct co co' task task' has has' same
      simp only [own, Function.update_self] at context'
      cases context'

/-- A closure that is marked as sent. -/
theorem markSent (r : Replies h) {i : Nat} {c : Closure} (found : h.closures[i]? = some c) :
    Replies { h with closures := h.closures.set i { c with sent := true } } := by
  have numbers : (h.closures.set i { c with sent := true }).map (·.task.number) =
      h.closures.map (·.task.number) := by
    refine List.ext_getElem? fun j => ?_
    rw [List.getElem?_map, List.getElem?_map, List.getElem?_set]
    split
    · next same =>
      subst same
      rw [found]
      split <;> simp_all
    · rfl
  have old : ∀ c' ∈ h.closures.set i { c with sent := true },
      ∃ c₀ ∈ h.closures, c₀.task.number = c'.task.number := by
    intro c' mem
    have mem' : c'.task.number ∈ h.closures.map (·.task.number) :=
      numbers ▸ List.mem_map_of_mem mem
    exact List.mem_map.mp mem'
  refine ⟨r.fits, r.once, numbers ▸ r.closuresOnce, r.repliesBelow, fun c' mem => ?_,
    fun c' mem notSent => ?_, fun co task session has context nonzero => ?_, r.addressed, r.unused⟩
  · obtain ⟨c₀, mem₀, same⟩ := old c' mem
    exact same ▸ r.closuresBelow c₀ mem₀
  · rcases List.mem_or_eq_of_mem_set mem with mem | rfl
    · exact r.unsent c' mem notSent
    · cases notSent
  · obtain ⟨asks, unanswered⟩ := r.owed co task session has context nonzero
    refine ⟨asks, unanswered.1, fun c' mem => ?_⟩
    obtain ⟨c₀, mem₀, same⟩ := old c' mem
    exact same ▸ unanswered.2 c₀ mem₀

theorem callClosure (r : Replies h) (self : UInt32) (i : Nat) (buff : Option (List UInt8)) :
    Replies (h.callClosure self i buff) := by
  unfold Host.callClosure
  rcases found : h.closures[i]? with _ | c
  · exact r
  by_cases sent : c.sent = true
  · simp only [sent, if_true]
    exact r
  have notSent : c.sent = false := Bool.eq_false_iff.mpr sent
  simp only [notSent, Bool.false_eq_true, if_false]
  have mem : c ∈ h.closures := List.mem_of_getElem? found
  obtain ⟨asks, fresh⟩ := r.unsent c mem notSent
  have marked := r.markSent found
  rcases buff with _ | buff
  · exact marked
  refine marked.respond asks (r.closuresBelow c mem) fresh
    (fun co' task' session' has context nonzero => ?_) (fun c' mem' notSent' => ?_) self buff
  · exact Ne.symm ((r.owed co' task' session' has context nonzero).2.2 c mem)
  · -- Two closures with one function would be one closure, and that one is marked.
    obtain ⟨j, at'⟩ := List.mem_iff_getElem?.mp mem'
    rw [List.getElem?_set] at at'
    by_cases same : i = j
    · subst same
      rw [if_pos rfl] at at'
      split at at'
      · cases at'
        cases notSent'
      · cases at'
    · rw [if_neg same] at at'
      intro number
      refine same ((List.getElem?_inj ?_ r.closuresOnce).mp ?_)
      · rw [List.length_map]
        exact (List.getElem?_eq_some_iff.mp found).1
      · rw [List.getElem?_map, List.getElem?_map, found, at']
        exact congrArg some number.symm

/-- A coroutine without a context goes to the pool. -/
theorem setPooled (r : Replies h) (address : h.sessionCoroutineAddress co = none) :
    Replies (h.setStatus co .pooled) := by
  refine ⟨r.fits, r.once, r.closuresOnce, r.repliesBelow, r.closuresBelow, r.unsent,
    fun co' task' session has => ?_, r.addressed, fun co' unused => ?_⟩
  · simp only [Host.setStatus] at has
    by_cases same : co' = co
    · rw [same, Function.update_self] at has
      cases has
    · rw [Function.update_of_ne same] at has
      exact r.owed co' task' session has
  · by_cases same : co' = co
    · rw [same]
      exact address
    · simp only [Host.setStatus, Function.update_of_ne same] at unused
      exact r.unused co' unused

/-- A coroutine loses its context. -/
theorem clearContext (r : Replies h) (co : Nat) : Replies (h.setContext co none none) := by
  have kept : ∀ co' session, (h.setContext co none none).sessionCoroutineId co' = some session →
      co' ≠ co ∧ h.sessionCoroutineId co' = some session := by
    intro co' session context
    simp only [Host.setContext] at context
    by_cases same : co' = co
    · rw [same, Function.update_self] at context
      cases context
    · rw [Function.update_of_ne same] at context
      exact ⟨same, context⟩
  have address : ∀ co', co' ≠ co →
      (h.setContext co none none).sessionCoroutineAddress co' = h.sessionCoroutineAddress co' :=
    fun _ ne => Function.update_of_ne ne ..
  refine ⟨r.fits, r.once, r.closuresOnce, r.repliesBelow, r.closuresBelow, r.unsent,
    fun co' task' session has context nonzero => ?_, fun co' session context => ?_,
    fun co' unused => ?_⟩
  · obtain ⟨ne, context⟩ := kept co' session context
    rw [address co' ne]
    exact r.owed co' task' session has context nonzero
  · obtain ⟨ne, context⟩ := kept co' session context
    rw [address co' ne]
    exact r.addressed co' session context
  · by_cases same : co' = co
    · rw [same]
      exact Function.update_self ..
    · rw [address co' same]
      exact r.unused co' unused

theorem recycle (r : Replies h) (co : Nat) (forks : Bool) : Replies (h.recycle co forks) := by
  unfold Host.recycle
  dsimp only
  split
  · exact ((r.clearContext co).setPooled (Function.update_self ..)).congr rfl rfl rfl rfl rfl rfl rfl
  · next absent =>
    have address : h.sessionCoroutineAddress co = none := by simpa using absent
    exact (r.setPooled address).congr rfl rfl rfl rfl rfl rfl rfl

end Replies

/-- Every recorded reply of service `self` was sent as a `RESPONSE`. -/
def Recorded (self : UInt32) (h : Host) : Prop :=
  ∀ r ∈ h.replies, ∃ buff,
    (r.toId, ⟨MsgType.response, .service { source := self, session := r.session, buff }⟩) ∈ h.sent

namespace Recorded

variable {self : UInt32}

theorem grow (d : Recorded self h) (replies : h'.replies = h.replies)
    (sent : ∀ m ∈ h.sent, m ∈ h'.sent) : Recorded self h' := by
  intro r mem
  rw [replies] at mem
  obtain ⟨buff, mem⟩ := d r mem
  exact ⟨buff, sent _ mem⟩

theorem congr (d : Recorded self h) (replies : h'.replies = h.replies) (sent : h'.sent = h.sent) :
    Recorded self h' :=
  d.grow replies fun _ mem => sent ▸ mem

theorem respond (d : Recorded self h) (address : Option Int64) (session : Int64)
    (buff : List UInt8) (task : Task) : Recorded self (h.respond self address session buff task) := by
  rcases address with _ | toId
  · exact d
  intro r mem
  rcases List.mem_append.mp mem with mem | mem
  · obtain ⟨text, mem⟩ := d r mem
    exact ⟨text, List.mem_append_left _ mem⟩
  · rw [List.mem_singleton.mp mem]
    exact ⟨buff, List.mem_append_right _ (List.mem_singleton_self _)⟩

theorem ret (d : Recorded self h) (task : Task) (buff : List UInt8) :
    Recorded self (h.ret self task buff) := by
  unfold Host.ret
  split
  · exact d
  split
  · exact d
  dsimp only
  split
  · exact d.congr rfl rfl
  · refine Recorded.respond ?_ _ _ _ _
    exact d.congr rfl rfl

theorem response (d : Recorded self h) (task : Task) : Recorded self (h.response task) := by
  unfold Host.response
  split
  · exact d
  split
  · exact d
  dsimp only
  split <;> exact d.congr rfl rfl

theorem callClosure (d : Recorded self h) (i : Nat) (buff : Option (List UInt8)) :
    Recorded self (h.callClosure self i buff) := by
  unfold Host.callClosure
  split
  · exact d
  split
  · exact d
  dsimp only
  split
  · exact d.congr rfl rfl
  · refine Recorded.respond ?_ _ _ _ _
    exact d.congr rfl rfl

end Recorded

end Starnet.Host
