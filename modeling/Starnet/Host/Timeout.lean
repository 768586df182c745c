import Starnet.Core.Send
import Starnet.Host.Session
import Starnet.Seri.Value
import Starnet.Timer.Update

/-! `starnet.sleep` and `starnet.timeout` with the timer under them. The library hands any value to
`c.timeout` as the delay and does not look at the result. `c.timeout` rejects what is no integer,
narrows an integer to an `int`, and sends the `RESPONSE` itself when that is not positive. A call is
one step here: other threads run before and after it. -/

namespace Starnet

namespace Timer

/-- `timer_add`. -/
def State.timerAdd (σ : State) (time : Nat) (event : TimerEvent) : State :=
  { σ with wheel := σ.wheel.addNode (σ.node time event), allocated := σ.allocated + 1 }

/-- The ticks until the timer of a node is due. -/
def Wheel.ticksLeft (T : Wheel) (node : TimerNode) : Nat := (node.expire - T.time).toNat

theorem State.ticksLeft_timerAdd (σ : State) (event : TimerEvent) {time : Nat}
    (int : time < 2147483648) :
    (σ.timerAdd time event).wheel.ticksLeft (σ.node time event) = time := by
  show (UInt32.ofNat time + σ.wheel.time - σ.wheel.time).toNat = time
  rw [UInt32.add_sub_cancel, UInt32.toNat_ofNat']
  omega

/-- A timer that is added is one of the steps after which it is dispatched when it is due. -/
theorem State.step_timerAdd (σ : State) (event : TimerEvent) {time : Nat} (positive : 0 < time)
    (int : time < 2147483648) :
    timer.step σ (.add (σ.node time event) time) (σ.timerAdd time event) :=
  .add σ time event positive int

end Timer

namespace Host

open Starnet.Core

/-- `lua_tointeger` of a value that `lua_isinteger` accepts. -/
def integerArg : LuaSeri.Value → Option Int64
  | .integer i => some i
  | _ => none

/-- The library of service `srv`, the timer and the node. -/
structure Timed (n : Nat) where
  srv : ServiceRef
  host : Host
  timer : Timer.State
  core : State n

/-- A call of `starnet.sleep` by coroutine `co`, a call of `starnet.sleep` outside of the coroutines,
as by a script before `start`, or a call of `starnet.timeout`. -/
inductive DelayCall
  | sleep (co : Nat) (task : Task) (forks : Bool)
  | sleepOutside
  | timeout
  deriving DecidableEq, Repr

namespace Timed

variable {n : Nat}

/-- The id of the service. -/
def id (s : Timed n) : UInt32 := (s.core.srv s.srv).id

/-- `starnet_timeout`. -/
def starnetTimeout (s : Timed n) (handle : UInt32) (time session : Int32) : Int32 × Timed n :=
  if time ≤ 0 then (session, { s with core := s.core.send handle (Producer.timerMsg session) })
  else (session, { s with timer := s.timer.timerAdd time.toInt.toNat ⟨handle, session⟩ })

/-- `LuaAPI::Timeout`. -/
def luaTimeout (s : Timed n) (id time session : LuaSeri.Value) : Int64 × Timed n :=
  match integerArg id, integerArg time, integerArg session with
  | some id, some time, some session =>
    let (r, s) := s.starnetTimeout id.toInt32.toUInt32 time.toInt32 session.toInt32
    (pushInt r, s)
  | _, _, _ => (-1, s)

/-- `auxtimeout`. -/
def auxtimeout (s : Timed n) (ti : LuaSeri.Value) : Int64 × Timed n :=
  let (session, host) := s.host.genid
  let s := { s with host }
  (session, (s.luaTimeout (.integer (pushUInt32 s.id)) ti (.integer session)).2)

/-- `starnet.sleep` up to its `coroutine.yield`. -/
def sleep (s : Timed n) (co : Nat) (task : Task) (forks : Bool) (ti : LuaSeri.Value) : Timed n :=
  let (session, s) := s.auxtimeout ti
  { s with host := s.host.yieldCall session co task forks }

/-- `starnet.sleep` where `coroutine.yield` raises an error. -/
def sleepOutside (s : Timed n) (ti : LuaSeri.Value) : Timed n :=
  let (session, s) := s.auxtimeout ti
  { s with host := s.host.store session s.host.runningThread }

/-- `starnet.timeout`. -/
def timeout (s : Timed n) (ti : LuaSeri.Value) : Nat × Timed n :=
  let (session, s) := s.auxtimeout ti
  let (co, host) := s.host.coCreate none
  (co, { s with host := host.store session (some co) })

def call (s : Timed n) (ti : LuaSeri.Value) : DelayCall → Timed n
  | .sleep co task forks => s.sleep co task forks ti
  | .sleepOutside => s.sleepOutside ti
  | .timeout => (s.timeout ti).2

end Timed

/-! ### What is expected of a delay -/

/-- The coroutine runs that calls `sleep`. -/
def DelayCall.Calls (h : Host) : DelayCall → Prop
  | sleep co task forks => h.control = .running co forks ∧ h.status co = .running task
  | sleepOutside | timeout => True

/-- The coroutine that is to be resumed: the caller, or one with the function given to `timeout`. A
call that raises an error has none. -/
def DelayCall.waiter (h : Host) : DelayCall → Option Nat
  | sleep co _ _ => some co
  | sleepOutside => none
  | timeout => some (h.genid.2.coCreate none).1

/-- The ticks that a number stands for, if it is a whole number. -/
def ticksOf : LuaSeri.Value → Option Int
  | .integer i => some i.toInt
  | .number bits => (LuaSeri.toInteger bits).map Int64.toInt
  | _ => none

/-- What brings a session back to a service. -/
inductive Carrier
  | timer (node : Timer.TimerNode)
  | response (msg : BaseMsg)
  deriving DecidableEq, Repr

/-- The carrier is due after `d` ticks, and at once if `d` is not positive. -/
def Carrier.DueAfter (T : Timer.Wheel) (d : Int) : Carrier → Prop
  | timer node => 0 < d ∧ T.ticksLeft node = d
  | response _ => d ≤ 0

namespace Timed

variable {n : Nat}

/-- The timers in the wheel and the messages in the queue that carry a session to the service. -/
def carriers (s : Timed n) (session : Int64) : List Carrier :=
  (s.timer.wheel.nodes.filter fun node =>
    node.event.handle = s.id ∧ pushInt node.event.session = session).map .timer ++
  ((s.core.srv s.srv).mq.msgQueue.filter fun msg =>
    msg.type = MsgType.response ∧ received msg = some session).map .response

/-- The session is registered for coroutine `co`, and one more timer or message carries it, due after
the delay. -/
structure HasTimer (s s' : Timed n) (ti : LuaSeri.Value) (co : Nat) : Prop where
  registered : s'.host.sessionIdCoroutine s.host.genid.1 = some co
  carried : ∃ c, (s'.carriers s.host.genid.1).Perm (s.carriers s.host.genid.1 ++ [c]) ∧
    ∀ d, ticksOf ti = some d → c.DueAfter s'.timer.wheel d

/-- Nothing is registered, and nothing more carries the session. -/
structure Unregistered (s s' : Timed n) : Prop where
  registered : s'.host.sessionIdCoroutine = s.host.sessionIdCoroutine
  carried : s'.carriers s.host.genid.1 = s.carriers s.host.genid.1

/-- What is expected of a call: the coroutine has its timer, or an error leaves nothing. -/
def Delays (s : Timed n) (ti : LuaSeri.Value) (f : DelayCall) : Prop :=
  match f.waiter s.host with
  | some co => HasTimer s (s.call ti f) ti co
  | none => Unregistered s (s.call ti f)

/-- The delay is an integer, a positive one fits in an `int`, and one that is not stays so as an
`int` and is given by a service that is still found. -/
def Timely (s : Timed n) (ti : LuaSeri.Value) : Prop :=
  ∃ i, integerArg ti = some i ∧
    (0 < i.toInt ∧ i.toInt < 2 ^ 31 ∨
      i.toInt ≤ 0 ∧ i.toInt32.toInt ≤ 0 ∧ s.core.getService s.id = some s.srv)

/-- The delay starts no timer and sends no message, and the coroutine that ran last is the entry of
the session already, as it is when none ran. -/
def Ineffective (s : Timed n) (ti : LuaSeri.Value) : Prop :=
  s.host.runningThread = s.host.sessionIdCoroutine s.host.genid.1 ∧
  ∀ i, integerArg ti = some i →
    i.toInt32.toInt ≤ 0 ∧ s.core.getService s.id ≠ some s.srv

/-- The condition for a call. -/
def Meets (s : Timed n) (ti : LuaSeri.Value) : DelayCall → Prop
  | .sleepOutside => s.Ineffective ti
  | _ => s.Timely ti

/-! ### The effect of `starnet_timeout` -/

variable {s : Timed n} {session : Int64} {time : Int32}

theorem id_send (s : Timed n) (handle : UInt32) (msg : BaseMsg) :
    { s with core := s.core.send handle msg }.id = s.id := State.send_id ..

/-- The `RESPONSE` that is sent at once, if the service is found. -/
theorem carriers_send (s : Timed n) (back : pushInt session.toInt32 = session) :
    Timed.carriers { s with core := s.core.send s.id (Producer.timerMsg session.toInt32) } session =
      s.carriers session ++ if s.core.getService s.id = some s.srv then
        [.response (Producer.timerMsg session.toInt32)] else [] := by
  have carries : (Producer.timerMsg session.toInt32).type = MsgType.response ∧
      received (Producer.timerMsg session.toInt32) = some session := ⟨rfl, congrArg some back⟩
  unfold carriers
  rw [id_send, State.send_msgQueue, List.filter_append, List.map_append, List.append_assoc]
  split
  · rw [List.filter_cons_of_pos (by simpa using carries)]
    rfl
  · rfl

/-- The timer that is added to the wheel. -/
theorem carriers_timerAdd (s : Timed n) (time : Nat) (back : pushInt session.toInt32 = session) :
    (Timed.carriers { s with timer := s.timer.timerAdd time ⟨s.id, session.toInt32⟩ } session).Perm
      (s.carriers session ++ [.timer (s.timer.node time ⟨s.id, session.toInt32⟩)]) := by
  have carries : (s.timer.node time ⟨s.id, session.toInt32⟩).event.handle = s.id ∧
      pushInt (s.timer.node time ⟨s.id, session.toInt32⟩).event.session = session := ⟨rfl, back⟩
  have added := ((s.timer.wheel.nodes_addNode (s.timer.node time ⟨s.id, session.toInt32⟩)).filter
    fun node => node.event.handle = s.id ∧ pushInt node.event.session = session).map Carrier.timer
  rw [List.filter_append, List.filter_cons_of_pos (by simpa using carries), List.filter_nil,
    List.map_append] at added
  refine (added.append_right _).trans ?_
  unfold carriers
  rw [List.append_assoc, List.append_assoc]
  exact List.perm_append_comm.append_left _

/-! ### Calls -/

variable {s' : Timed n} {ti : LuaSeri.Value}

theorem carriers_congr (srv : s'.srv = s.srv) (timer : s'.timer = s.timer) (core : s'.core = s.core)
    (session : Int64) : s'.carriers session = s.carriers session := by
  unfold carriers id
  rw [srv, timer, core]

/-- What a call does to the timer and to the node. -/
theorem call_cases (s : Timed n) (ti : LuaSeri.Value) (f : DelayCall) :
    (integerArg ti = none ∧ (s.call ti f).timer = s.timer ∧ (s.call ti f).core = s.core) ∨
    ∃ i, integerArg ti = some i ∧
      (i.toInt32.toInt ≤ 0 ∧ (s.call ti f).timer = s.timer ∧
        (s.call ti f).core =
          s.core.send s.id (Producer.timerMsg s.host.genid.1.toInt32) ∨
      0 < i.toInt32.toInt ∧ (s.call ti f).core = s.core ∧
        (s.call ti f).timer =
          s.timer.timerAdd i.toInt32.toInt.toNat ⟨s.id, s.host.genid.1.toInt32⟩) := by
  have parts : (s.call ti f).timer = (s.auxtimeout ti).2.timer ∧
      (s.call ti f).core = (s.auxtimeout ti).2.core := by
    cases f <;> exact ⟨rfl, rfl⟩
  rw [parts.1, parts.2]
  simp only [auxtimeout, luaTimeout, show ∀ i, integerArg (.integer i) = some i from fun _ => rfl]
  cases delay : integerArg ti with
  | none => exact Or.inl ⟨rfl, rfl, rfl⟩
  | some i =>
    refine Or.inr ⟨i, rfl, ?_⟩
    simp only [toUInt32_pushUInt32, starnetTimeout]
    split
    · next nonpos => exact Or.inl ⟨Int32.le_iff_toInt_le.mp nonpos, rfl, rfl⟩
    · next positive =>
      refine Or.inr ⟨?_, rfl, rfl⟩
      exact Int.not_le.mp fun le => positive (Int32.le_iff_toInt_le.mpr le)

theorem call_srv (s : Timed n) (ti : LuaSeri.Value) (f : DelayCall) : (s.call ti f).srv = s.srv := by
  have aux : (s.auxtimeout ti).2.srv = s.srv := by
    unfold auxtimeout luaTimeout starnetTimeout
    dsimp only
    split
    · split <;> rfl
    · rfl
  cases f <;> exact aux

theorem auxtimeout_host (s : Timed n) (ti : LuaSeri.Value) :
    (s.auxtimeout ti).2.host = s.host.genid.2 := by
  unfold auxtimeout luaTimeout starnetTimeout
  dsimp only
  split
  · split <;> rfl
  · rfl

/-- The coroutine is registered whatever the delay is. -/
theorem call_registered (good : Good s.host) (ti : LuaSeri.Value) {f : DelayCall}
    (calls : f.Calls s.host) {co : Nat} (waits : f.waiter s.host = some co) :
    (s.call ti f).host.sessionIdCoroutine s.host.genid.1 = some co := by
  have host := auxtimeout_host s ti
  cases f with
  | sleep co' task forks =>
    cases waits
    obtain ⟨thread, -⟩ := good.placed.runs co forks calls.1
    show ((s.auxtimeout ti).2.host.yieldCall s.host.genid.1 co task forks).sessionIdCoroutine
      s.host.genid.1 = some co
    rw [host]
    exact (Function.update_self ..).trans thread
  | sleepOutside => cases waits
  | timeout =>
    cases waits
    show (((s.auxtimeout ti).2.host.coCreate none).2.store s.host.genid.1
      (some ((s.auxtimeout ti).2.host.coCreate none).1)).sessionIdCoroutine s.host.genid.1 =
      some (s.host.genid.2.coCreate none).1
    rw [host]
    simp only [Host.store, Function.update_self]

/-- An integer that an `int` holds. -/
theorem toInt_toInt32_of_lt {i : Int64} (positive : 0 < i.toInt) (int : i.toInt < 2 ^ 31) :
    i.toInt32.toInt = i.toInt := by
  rw [Int64.toInt_toInt32, Int.bmod_def]
  omega

/-- A longer list is no arrangement of a shorter one. -/
theorem not_perm_append {l : List Carrier} {c : Carrier} : ¬ l.Perm (l ++ [c]) := by
  intro perm
  have length := perm.length_eq
  rw [List.length_append] at length
  exact absurd length (Nat.ne_of_lt (Nat.lt_succ_self _))

/-- Two lists with one carrier more have the same one more. -/
theorem eq_of_perm {l l' : List Carrier} {c c' : Carrier} (perm : l'.Perm (l ++ [c]))
    (perm' : l'.Perm (l ++ [c'])) : c = c' := by
  have same : [c].Perm [c'] := (List.perm_append_left_iff l).mp (perm.symm.trans perm')
  exact List.singleton_perm_singleton.mp same

/-- One more carrier, due after the delay. -/
def Carried (s s' : Timed n) (ti : LuaSeri.Value) : Prop :=
  ∃ c, (s'.carriers s.host.genid.1).Perm (s.carriers s.host.genid.1 ++ [c]) ∧
    ∀ d, ticksOf ti = some d → c.DueAfter s'.timer.wheel d

variable {i : Int64}

theorem timely_integer : s.Timely (.integer i) ↔ 0 < i.toInt ∧ i.toInt < 2 ^ 31 ∨
    i.toInt ≤ 0 ∧ i.toInt32.toInt ≤ 0 ∧ s.core.getService s.id = some s.srv := by
  constructor
  · rintro ⟨_, ⟨⟩, timely⟩
    exact timely
  · exact fun timely => ⟨i, rfl, timely⟩

/-- A delay that is not positive as an `int`. -/
theorem carried_iff_of_nonpos (nonpos : i.toInt32.toInt ≤ 0)
    (carriers : s'.carriers s.host.genid.1 = s.carriers s.host.genid.1 ++
      if s.core.getService s.id = some s.srv then
        [.response (Producer.timerMsg s.host.genid.1.toInt32)] else []) :
    Carried s s' (.integer i) ↔ s.Timely (.integer i) := by
  rw [timely_integer]
  unfold Carried
  rw [carriers]
  constructor
  · rintro ⟨c, perm, due⟩
    by_cases found : s.core.getService s.id = some s.srv
    · rw [if_pos found] at perm
      have at_once := due i.toInt rfl
      rw [eq_of_perm perm (List.Perm.refl _)] at at_once
      exact Or.inr ⟨at_once, nonpos, found⟩
    · rw [if_neg found, List.append_nil] at perm
      exact absurd perm not_perm_append
  · rintro (⟨positive, int⟩ | ⟨past, -, found⟩)
    · rw [toInt_toInt32_of_lt positive int] at nonpos
      omega
    · rw [if_pos found]
      refine ⟨_, List.Perm.refl _, fun d ticks => ?_⟩
      cases ticks
      exact past

/-- A delay that is positive as an `int`. -/
theorem carried_iff_of_pos {event : Timer.TimerEvent} (positive : 0 < i.toInt32.toInt)
    (timer : s'.timer = s.timer.timerAdd i.toInt32.toInt.toNat event)
    (carriers : (s'.carriers s.host.genid.1).Perm (s.carriers s.host.genid.1 ++
      [.timer (s.timer.node i.toInt32.toInt.toNat event)])) :
    Carried s s' (.integer i) ↔ s.Timely (.integer i) := by
  have bound := Int32.toInt_lt i.toInt32
  have left : (s'.timer.wheel.ticksLeft (s.timer.node i.toInt32.toInt.toNat event) : Int) =
      i.toInt32.toInt := by
    rw [timer, s.timer.ticksLeft_timerAdd event (by omega), Int.toNat_of_nonneg positive.le]
  rw [timely_integer]
  constructor
  · rintro ⟨c, perm, due⟩
    cases eq_of_perm perm carriers
    obtain ⟨later, ticks⟩ := due i.toInt rfl
    refine Or.inl ⟨later, ?_⟩
    rw [← ticks, left]
    exact bound
  · rintro (⟨later, fits⟩ | ⟨-, past, -⟩)
    · refine ⟨_, carriers, fun d ticks => ?_⟩
      cases ticks
      exact ⟨later, left.trans (toInt_toInt32_of_lt later fits)⟩
    · omega

/-- What carries the session after a call. -/
theorem call_carriers (s : Timed n) (f : DelayCall) (ti : LuaSeri.Value)
    (short : s.host.sessionGen.toNat + 1 < 2 ^ 31) :
    (integerArg ti = none ∧
      (s.call ti f).carriers s.host.genid.1 = s.carriers s.host.genid.1) ∨
    ∃ i, ti = .integer i ∧
      (i.toInt32.toInt ≤ 0 ∧ (s.call ti f).carriers s.host.genid.1 = s.carriers s.host.genid.1 ++
        (if s.core.getService s.id = some s.srv then
          [.response (Producer.timerMsg s.host.genid.1.toInt32)] else []) ∨
      0 < i.toInt32.toInt ∧ ∃ event,
        (s.call ti f).timer = s.timer.timerAdd i.toInt32.toInt.toNat event ∧
        ((s.call ti f).carriers s.host.genid.1).Perm (s.carriers s.host.genid.1 ++
          [.timer (s.timer.node i.toInt32.toInt.toNat event)])) := by
  have back : pushInt s.host.genid.1.toInt32 = s.host.genid.1 := by
    refine (pushInt_toInt32_eq_iff _).mpr ?_
    rw [UInt32.toNat_add]
    show (_ + 1) % _ < _
    omega
  have srv := call_srv s ti f
  rcases call_cases s ti f with ⟨rejected, timer, core⟩ | ⟨i, integer, effect⟩
  · exact Or.inl ⟨rejected, carriers_congr srv timer core _⟩
  · obtain rfl : ti = .integer i := by
      cases ti <;> cases integer
      rfl
    refine Or.inr ⟨i, rfl, ?_⟩
    rcases effect with ⟨nonpos, timer, core⟩ | ⟨positive, core, timer⟩
    · have sent : (s.call (.integer i) f).carriers s.host.genid.1 = Timed.carriers { s with
          core := s.core.send s.id (Producer.timerMsg s.host.genid.1.toInt32) } s.host.genid.1 :=
        carriers_congr (by exact srv) (by exact timer) (by exact core) _
      exact Or.inl ⟨nonpos, sent.trans (carriers_send s back)⟩
    · have added : (s.call (.integer i) f).carriers s.host.genid.1 = Timed.carriers { s with
          timer := s.timer.timerAdd i.toInt32.toInt.toNat ⟨s.id, s.host.genid.1.toInt32⟩ }
          s.host.genid.1 := carriers_congr (by exact srv) (by exact timer) (by exact core) _
      refine Or.inr ⟨positive, _, timer, ?_⟩
      rw [added]
      exact carriers_timerAdd s i.toInt32.toInt.toNat back

theorem carried_iff (s : Timed n) (f : DelayCall) (ti : LuaSeri.Value)
    (short : s.host.sessionGen.toNat + 1 < 2 ^ 31) :
    Carried s (s.call ti f) ti ↔ s.Timely ti := by
  rcases call_carriers s f ti short with ⟨rejected, same⟩ | ⟨i, rfl, ⟨nonpos, sent⟩ |
    ⟨positive, event, timer, added⟩⟩
  · constructor
    · rintro ⟨c, perm, -⟩
      rw [same] at perm
      exact absurd perm not_perm_append
    · rintro ⟨i, integer, -⟩
      rw [rejected] at integer
      cases integer
  · exact carried_iff_of_nonpos nonpos sent
  · exact carried_iff_of_pos positive timer added

/-- A call outside of the coroutines leaves nothing exactly when it has nothing to leave. -/
theorem unregistered_iff (s : Timed n) (ti : LuaSeri.Value)
    (short : s.host.sessionGen.toNat + 1 < 2 ^ 31) :
    Unregistered s (s.call ti .sleepOutside) ↔ s.Ineffective ti := by
  have table : (s.call ti .sleepOutside).host.sessionIdCoroutine =
      Function.update s.host.sessionIdCoroutine s.host.genid.1 s.host.runningThread := by
    show ((s.auxtimeout ti).2.host.store s.host.genid.1
      (s.auxtimeout ti).2.host.runningThread).sessionIdCoroutine = _
    rw [auxtimeout_host]
    rfl
  have same : (s.call ti .sleepOutside).carriers s.host.genid.1 = s.carriers s.host.genid.1 ↔
      ∀ i, integerArg ti = some i →
        i.toInt32.toInt ≤ 0 ∧ s.core.getService s.id ≠ some s.srv := by
    rcases call_carriers s .sleepOutside ti short with ⟨rejected, same⟩ | ⟨i, rfl, ⟨nonpos, sent⟩ |
      ⟨positive, event, timer, added⟩⟩
    · refine iff_of_true same fun i integer => ?_
      rw [rejected] at integer
      cases integer
    · rw [sent, List.append_right_eq_self]
      constructor
      · rintro none _ ⟨⟩
        exact ⟨nonpos, fun found => by simp [found] at none⟩
      · intro all
        exact if_neg (all i rfl).2
    · refine iff_of_false (fun eq => ?_) fun all => ?_
      · rw [eq] at added
        exact not_perm_append added
      · exact absurd (all i rfl).1 (by omega)
  constructor
  · intro u
    have registered := u.registered
    rw [table, Function.update_eq_self_iff] at registered
    exact ⟨registered, same.mp u.carried⟩
  · rintro ⟨registered, none⟩
    refine ⟨?_, same.mpr none⟩
    rw [table, Function.update_eq_self_iff]
    exact registered

end Timed

end Host

end Starnet
