import Starnet.Host.Run

/-! Session numbers. `Genid` counts in 32 bits, its result is pushed as a non-negative Lua integer,
and `send_session` and `timeout` store it in an `int`, which `OnServiceMsg` pushes with its sign.
The key of a coroutine therefore comes back only from the half of the numbers that an `int` holds,
and the numbers repeat after `2 ^ 32` calls. -/

namespace Starnet.Host

/-- The session that `OnServiceMsg` passes to `dispatch_message`. -/
def received : BaseMsg → Option Int64
  | ⟨_, .service msg⟩ => some (pushInt msg.session)
  | ⟨_, .socket _⟩ => none

/-- The session in the `RESPONSE` for a request of service `self`, which service `service` answers
with `ret` or `response`. -/
def callResponse (self service : UInt32) (type : Int64) (msg reply : List UInt8) (session : Int64) :
    Option Int64 :=
  (received (Producer.luaSendSession (some self) type session msg)).bind fun session =>
    received (Producer.luaSendSession (some service) 1 session reply)

/-- The session in the `RESPONSE` of the timer that `c.timeout` starts. -/
def timerResponse (session : Int64) : Option Int64 :=
  received (Producer.timerMsg session.toInt32)

/-- The key of a new wait is that of no other, and comes back in its `RESPONSE`; `h` is the state
before the call. -/
structure Identifies (id : UInt32) (h : Host) (wait : Wait) : Prop where
  nonzero : wait.key ≠ 0
  distinct : h.outstanding.length < 2 ^ 31 → ∀ other ∈ h.outstanding, other.key ≠ wait.key
  call : ∀ service type msg reply, callResponse id service type msg reply wait.key = some wait.key
  timer : timerResponse wait.key = some wait.key

/-- The coroutines that a step stores for a session. -/
def StoresSound (self : UInt32) (h h' : Host) : Prop :=
  ∀ wait ∈ h'.outstanding, wait ∉ h.outstanding → Identifies self h wait

/-- `call`, `sleep` and `timeout`. -/
def Op.Stores : Op → Prop
  | .act (.call _) | .act .sleep | .act .timeout => True
  | _ => False

/-- The number of a new session is positive as an `int`, and no coroutine waits since a call of
`Genid` that is a multiple of `2 ^ 32` calls back. -/
def Fits (h : Host) (op : Op) : Prop :=
  op.Stores →
    (0 < (h.allocated + 1) % 2 ^ 32 ∧ (h.allocated + 1) % 2 ^ 32 < 2 ^ 31) ∧
    (h.outstanding.length < 2 ^ 31 → ∀ wait ∈ h.outstanding,
      wait.number % 2 ^ 32 ≠ (h.allocated + 1) % 2 ^ 32)

/-! ### Keys -/

theorem pushUInt32_toInt (x : UInt32) : (pushUInt32 x).toInt = x.toNat := by
  have small : 2 * x.toUInt64.toNat < 2 ^ 64 := by
    have bound := x.toNat_lt
    rw [UInt32.toNat_toUInt64]
    omega
  exact BitVec.toInt_eq_toNat_of_lt small

/-- An `int` keeps the lower half of the numbers. -/
theorem pushInt_toInt32_eq_iff (x : UInt32) :
    pushInt (pushUInt32 x).toInt32 = pushUInt32 x ↔ x.toNat < 2 ^ 31 := by
  rw [← Int64.toInt_inj, pushUInt32_toInt, pushInt, Int32.toInt_toInt64, Int64.toInt_toInt32,
    pushUInt32_toInt, Int.bmod_def]
  have bound := x.toNat_lt
  omega

/-- The key of the `n`-th call of `Genid`. -/
def keyOf (n : Nat) : Int64 := pushUInt32 (UInt32.ofNat n)

theorem keyOf_toInt (n : Nat) : (keyOf n).toInt = (n % 2 ^ 32 : Nat) := by
  rw [keyOf, pushUInt32_toInt, UInt32.toNat_ofNat']

theorem keyOf_ne_zero_iff (n : Nat) : keyOf n ≠ 0 ↔ 0 < n % 2 ^ 32 := by
  rw [Ne, ← Int64.toInt_inj, keyOf_toInt, Int64.toInt_zero]
  omega

theorem keyOf_eq_iff (m n : Nat) : keyOf m = keyOf n ↔ m % 2 ^ 32 = n % 2 ^ 32 := by
  rw [← Int64.toInt_inj, keyOf_toInt, keyOf_toInt]
  omega

theorem timerResponse_keyOf_iff (n : Nat) :
    timerResponse (keyOf n) = some (keyOf n) ↔ n % 2 ^ 32 < 2 ^ 31 := by
  rw [← UInt32.toNat_ofNat', ← pushInt_toInt32_eq_iff]
  exact Option.some_inj

/-- Two conversions to `int` are one. -/
theorem callResponse_eq (self service : UInt32) (type : Int64) (msg reply : List UInt8)
    (session : Int64) :
    callResponse self service type msg reply session = timerResponse session := by
  show some (pushInt (pushInt session.toInt32).toInt32) = some (pushInt session.toInt32)
  rw [toInt32_pushInt]

/-! ### Steps -/

variable {self : UInt32} {dispatch : UInt8 → Bool} {h h' : Host} {co : Nat} {task : Task}
  {forks : Bool} {op : Op}

/-- A step that stores a coroutine under the key of a new call of `Genid`. -/
structure Storing (h h' : Host) (co : Nat) : Prop where
  sessionGen : h'.sessionGen = h.sessionGen + 1
  allocated : h'.allocated = h.allocated + 1
  outstanding : h'.outstanding =
    h.outstanding ++ [⟨h.allocated + 1, pushUInt32 (h.sessionGen + 1), co⟩]
  stored : h'.sessionIdCoroutine (pushUInt32 (h.sessionGen + 1)) = some co

/-- The coroutine is stored once the number is allocated. -/
theorem Storing.store {h₁ : Host} (gen : h₁.sessionGen = h.sessionGen + 1)
    (allocated : h₁.allocated = h.allocated + 1) (outstanding : h₁.outstanding = h.outstanding) :
    Storing h (h₁.store (pushUInt32 (h.sessionGen + 1)) (some co)) co := by
  refine ⟨gen, allocated, ?_, Function.update_self ..⟩
  rw [← allocated, ← outstanding]
  rfl

theorem Storing.yieldCall {h₁ : Host} (gen : h₁.sessionGen = h.sessionGen + 1)
    (allocated : h₁.allocated = h.allocated + 1) (outstanding : h₁.outstanding = h.outstanding)
    (thread : h₁.runningThread = some co) :
    Storing h (h₁.yieldCall (pushUInt32 (h.sessionGen + 1)) co task forks) co := by
  have stored : Storing h (h₁.store (pushUInt32 (h.sessionGen + 1)) (some co)) co :=
    .store gen allocated outstanding
  rw [← thread] at stored
  exact ⟨stored.sessionGen, stored.allocated, stored.outstanding, stored.stored⟩

/-- What a coroutine does to the sessions. -/
theorem execute_storing (good : Good h) (control : h.control = .running co forks) (a : Act) :
    (Op.act a).Stores ∧ (∃ co', Storing h (h.execute self co task forks a) co') ∨
    ¬ (Op.act a).Stores ∧ Quiet h (h.execute self co task forks a) := by
  obtain ⟨thread, -⟩ := good.placed.runs co forks control
  cases a with
  | call args =>
    refine Or.inl ⟨trivial, co, ?_⟩
    rcases args with _ | ⟨addr, type, msg⟩ <;> exact .yieldCall rfl rfl rfl thread
  | sleep => exact Or.inl ⟨trivial, co, .yieldCall rfl rfl rfl thread⟩
  | timeout =>
    obtain ⟨-, -, -, -, -, -, -, -, -, -, gen, allocated, outstanding, -⟩ :=
      (good.genid.placed.coCreate none).keeps
    exact Or.inl ⟨trivial, _, .store gen allocated outstanding⟩
  | fork =>
    refine Or.inr ⟨id, .trans (Silent.coCreate good.placed none).toQuiet ?_⟩
    exact ⟨rfl, rfl, .refl _⟩
  | ret buff => exact Or.inr ⟨id, (ret_still ..).toQuiet⟩
  | response => exact Or.inr ⟨id, (response_still ..).toQuiet⟩
  | closure i buff => exact Or.inr ⟨id, (callClosure_still ..).toQuiet⟩
  | finish => exact Or.inr ⟨id, (Silent.recycle ..).toQuiet⟩
  | error => exact Or.inr ⟨id, rfl, rfl, .refl _⟩

theorem step_storing (good : Good h) (taken : h.step self dispatch op = some h') :
    op.Stores ∧ (∃ co, Storing h h' co) ∨ ¬ op.Stores ∧ Quiet h h' := by
  obtain ⟨type, session, source, -, rfl, rfl⟩ | ⟨-, rfl, rfl⟩ | ⟨-, rfl, rfl⟩ |
    ⟨co, forks, task, a, control, -, rfl, rfl⟩ := step_cases taken
  · exact Or.inr ⟨id, (Silent.rawDispatchMessage good.placed ..).toQuiet⟩
  · exact Or.inr ⟨id, (Silent.handle good.placed ..).toQuiet⟩
  · exact Or.inr ⟨id, (Silent.nextFork h).toQuiet⟩
  · exact execute_storing good control a

/-! ### Runs -/

/-- The keys of the waits are those of the calls of `Genid`. -/
structure Counted (h : Host) : Prop where
  sessionGen : h.sessionGen = UInt32.ofNat h.allocated
  keyed : ∀ wait ∈ h.outstanding, wait.key = keyOf wait.number
  numbered : ∀ wait ∈ h.outstanding, wait.number ≤ h.allocated

theorem Counted.next (c : Counted h) : pushUInt32 (h.sessionGen + 1) = keyOf (h.allocated + 1) := by
  rw [keyOf, UInt32.ofNat_add, c.sessionGen]
  rfl

theorem Counted.step (c : Counted h) (good : Good h)
    (taken : h.step self dispatch op = some h') : Counted h' := by
  rcases step_storing good taken with ⟨-, co, s⟩ | ⟨-, q⟩
  · refine ⟨?_, fun wait mem => ?_, fun wait mem => ?_⟩
    · rw [s.sessionGen, s.allocated, c.sessionGen, UInt32.ofNat_add]
      rfl
    · rw [s.outstanding] at mem
      rcases List.mem_append.mp mem with mem | mem
      · exact c.keyed wait mem
      · rw [List.mem_singleton.mp mem]
        exact c.next
    · rw [s.outstanding] at mem
      rw [s.allocated]
      rcases List.mem_append.mp mem with mem | mem
      · exact Nat.le_succ_of_le (c.numbered wait mem)
      · rw [List.mem_singleton.mp mem]
  · refine ⟨?_, fun wait mem => ?_, fun wait mem => ?_⟩
    · rw [q.sessionGen, q.allocated, c.sessionGen]
    · exact c.keyed wait (q.outstanding.subset mem)
    · rw [q.allocated]
      exact c.numbered wait (q.outstanding.subset mem)

theorem counted_of_run {tr : List Op} (run : (library self dispatch).Run h tr) : Counted h := by
  induction run with
  | init start =>
    subst start
    exact ⟨rfl, nofun, nofun⟩
  | step run taken counted => exact counted.step (good_of_run run) taken

theorem identifies_iff (c : Counted h) (co : Nat) :
    Identifies self h ⟨h.allocated + 1, pushUInt32 (h.sessionGen + 1), co⟩ ↔
      (0 < (h.allocated + 1) % 2 ^ 32 ∧ (h.allocated + 1) % 2 ^ 32 < 2 ^ 31) ∧
      (h.outstanding.length < 2 ^ 31 → ∀ wait ∈ h.outstanding,
        wait.number % 2 ^ 32 ≠ (h.allocated + 1) % 2 ^ 32) := by
  have differ : ∀ wait ∈ h.outstanding, wait.key ≠ keyOf (h.allocated + 1) ↔
      wait.number % 2 ^ 32 ≠ (h.allocated + 1) % 2 ^ 32 := by
    intro wait mem
    rw [c.keyed wait mem, Ne, keyOf_eq_iff]
  rw [c.next]
  constructor
  · intro i
    refine ⟨⟨(keyOf_ne_zero_iff _).mp i.nonzero, (timerResponse_keyOf_iff _).mp i.timer⟩, ?_⟩
    exact fun few wait mem => (differ wait mem).mp (i.distinct few wait mem)
  · rintro ⟨⟨positive, fits⟩, apart⟩
    have back := (timerResponse_keyOf_iff _).mpr fits
    refine ⟨(keyOf_ne_zero_iff _).mpr positive, ?_, fun _ _ _ _ => ?_, back⟩
    · exact fun few wait mem => (differ wait mem).mpr (apart few wait mem)
    · rw [callResponse_eq]
      exact back

theorem storesSound_iff (c : Counted h) (good : Good h)
    (taken : h.step self dispatch op = some h') : StoresSound self h h' ↔ Fits h op := by
  rcases step_storing good taken with ⟨stores, co, s⟩ | ⟨quiet, q⟩
  · have fresh : (⟨h.allocated + 1, pushUInt32 (h.sessionGen + 1), co⟩ : Wait) ∉ h.outstanding :=
      fun mem => Nat.not_succ_le_self _ (c.numbered _ mem)
    have sound : StoresSound self h h' ↔
        Identifies self h ⟨h.allocated + 1, pushUInt32 (h.sessionGen + 1), co⟩ := by
      unfold StoresSound
      rw [s.outstanding]
      constructor
      · exact fun all => all _ (List.mem_append_right _ (List.mem_singleton_self _)) fresh
      · intro own wait mem new
        rcases List.mem_append.mp mem with mem | mem
        · exact absurd mem new
        · exact List.mem_singleton.mp mem ▸ own
    rw [sound, identifies_iff c]
    exact ⟨fun fits _ => fits, fun fits => fits stores⟩
  · exact ⟨fun _ stores => absurd stores quiet,
      fun _ wait mem new => absurd (q.outstanding.subset mem) new⟩

/-- A step of a run stores its coroutine under a key that identifies it exactly when the number of
the session fits. -/
theorem storesSound_iff_fits {tr : List Op} (run : (library self dispatch).Run h tr)
    (taken : h.step self dispatch op = some h') : StoresSound self h h' ↔ Fits h op :=
  storesSound_iff (counted_of_run run) (good_of_run run) taken

/-- The first sleep of a handler. -/
theorem storesSound_first : ∃ h h' : Host, h'.outstanding = [⟨1, 1, 0⟩] ∧ StoresSound 9 h h' := by
  have run : (library 9 (· == MsgType.lua)).Run _ [.message MsgType.lua 5 7] := run_of_steps rfl
  refine ⟨_, _, ?_, (@storesSound_iff_fits _ _ _ _ (.act .sleep) _ run rfl).mpr fun _ => ?_⟩
  · rfl
  · exact ⟨by decide, fun _ => List.forall_mem_nil _⟩

/-! ### A long-lived service -/

/-- A handler that sleeps `n` times runs with no coroutine waiting, as long as the numbers fit an
`int`. -/
theorem sleeps (n : Nat) (fits : n < 2 ^ 31) : ∃ (h : Host) (tr : List Op),
    (library 9 (· == MsgType.lua)).Run h tr ∧ h.control = .running 0 true ∧
    h.status 0 = .running ⟨0, some (5, 7)⟩ ∧ h.forkQueue = [] ∧ h.outstanding = [] ∧
    h.allocated = n := by
  induction n with
  | zero =>
    have run : (library 9 (· == MsgType.lua)).Run _ [.message MsgType.lua 5 7] := run_of_steps rfl
    exact ⟨_, _, run, rfl, rfl, rfl, rfl, rfl⟩
  | succ n ih =>
    obtain ⟨h, tr, run, control, status, queue, outstanding, allocated⟩ := ih (by omega)
    have thread := ((good_of_run run).placed.runs 0 true control).1
    have key : h.genid.1 = keyOf (n + 1) := by
      rw [← allocated]
      exact (counted_of_run run).next
    have back : pushInt (keyOf (n + 1)).toInt32 = keyOf (n + 1) := by
      refine (pushInt_toInt32_eq_iff _).mpr ?_
      rw [UInt32.toNat_ofNat']
      omega
    -- The handler sleeps, the fork queue is empty, and the timer wakes the handler.
    obtain ⟨h₁, slept, control₁, status₁, queue₁, table₁, outstanding₁, allocated₁⟩ :
        ∃ h₁, h.step 9 (· == MsgType.lua) (.act .sleep) = some h₁ ∧ h₁.control = .forks ∧
          h₁.status 0 = .waiting ⟨0, some (5, 7)⟩ ∧ h₁.forkQueue = [] ∧
          h₁.sessionIdCoroutine (keyOf (n + 1)) = some 0 ∧
          (∀ wait ∈ h₁.outstanding, wait.co = 0) ∧ h₁.allocated = n + 1 := by
      refine ⟨h.execute 9 0 ⟨0, some (5, 7)⟩ true .sleep, ?_, rfl, rfl, queue, ?_,
        ?_, congrArg (· + 1) allocated⟩
      · simp only [Host.step, control, status]
      · rw [← key]
        exact (Function.update_self ..).trans thread
      · intro wait mem
        have eq : (h.execute 9 0 ⟨0, some (5, 7)⟩ true .sleep).outstanding =
            h.outstanding ++ (h.runningThread.map (Wait.mk (h.allocated + 1) h.genid.1)).toList := rfl
        rw [eq, outstanding, thread] at mem
        rw [List.mem_singleton.mp mem]
    have ends : h₁.step 9 (· == MsgType.lua) .nextFork = some { h₁ with control := .idle } := by
      simp only [Host.step, control₁, if_true, Host.nextFork, queue₁]
    have run₁ := (run.step (a := Op.act .sleep) slept).step (a := Op.nextFork) ends
    have woken : Host.step 9 (· == MsgType.lua) { h₁ with control := .idle }
        (.message MsgType.response (keyOf (n + 1)).toInt32 0) = some
        (Host.resume { h₁ with
          control := .idle
          sessionIdCoroutine := Function.update h₁.sessionIdCoroutine (keyOf (n + 1)) none } 0 true
          true) := by
      simp only [Host.step, Host.rawDispatchMessage, if_true, back, Host.wake, table₁]
    have run₂ := run₁.step (a := Op.message MsgType.response (keyOf (n + 1)).toInt32 0) woken
    refine ⟨_, _, run₂, ?_, ?_, ?_, ?_, ?_⟩ <;> simp only [Host.resume, status₁]
    · rfl
    · exact queue₁
    · exact List.filter_eq_nil_iff.mpr fun wait mem => by simp [outstanding₁ wait mem]
    · exact allocated₁

/-- After `2 ^ 31 - 1` sleeps the `RESPONSE` of the next one has a negative session. -/
theorem not_storesSound_sleeps : ∃ (h h' : Host) (tr : List Op),
    (library 9 (· == MsgType.lua)).Run h tr ∧ h.allocated = 2 ^ 31 - 1 ∧ h.outstanding = [] ∧
    h.step 9 (· == MsgType.lua) (.act .sleep) = some h' ∧ ¬ StoresSound 9 h h' := by
  obtain ⟨h, tr, run, control, status, -, outstanding, allocated⟩ := sleeps (2 ^ 31 - 1) (by decide)
  have taken : h.step 9 (· == MsgType.lua) (.act .sleep) =
      some (h.execute 9 0 ⟨0, some (5, 7)⟩ true .sleep) := by
    simp only [Host.step, control, status]
  refine ⟨h, _, tr, run, allocated, outstanding, taken, fun sound => ?_⟩
  obtain ⟨⟨-, fits⟩, -⟩ := (storesSound_iff (counted_of_run run) (good_of_run run) taken).mp sound
    trivial
  rw [allocated] at fits
  exact absurd fits (by decide)

end Starnet.Host
