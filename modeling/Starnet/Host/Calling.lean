import Starnet.Host.Exchange
import Starnet.Host.Timeout

/-! `starnet.call` with any Lua values, and what `send_session` makes of them. An address that is not
resolved, a protocol that is not in the table and an error of `pack` raise an error; after that the
library waits, whether or not `send_session` accepts its arguments and `Starnet::Send` finds the
service. -/

namespace Starnet.Host

open Starnet.Core

/-- A class of the protocol table. `pack` gets any values and fails with `none`. -/
structure CallClass where
  id : Option LuaNumber
  pack : List LuaSeri.Value → Option LuaSeri.Value

inductive CallError
  | invalidAddress
  | noProtocol
  | pack
  | yieldOutside
  deriving DecidableEq, Repr

/-- `pack_string`; `call` takes the first of its results. -/
def packString (values : List LuaSeri.Value) : Option LuaSeri.Value := some (values.head?.getD .nil)

/-- The classes that the library registers when it is loaded. -/
def builtinClass (name : String) : Option CallClass :=
  (builtins.find? fun c => c.name = name).map fun c => ⟨c.id, packString⟩

/-- The class of a protocol table, on messages that are strings. -/
structure CallClass.Represents (k : CallClass) (c : ProtocolClass) : Prop where
  id : k.id = c.id
  pack : ∀ text, k.pack [.string text] = some ((c.pack text).elim .nil .string)

theorem builtinClass_represents {name : String} {k : CallClass} (found : builtinClass name = some k) :
    ∃ c ∈ builtins, c.name = name ∧ k.Represents c := by
  obtain ⟨c, first, rfl⟩ := Option.map_eq_some_iff.mp found
  have mem := List.mem_of_find?_eq_some first
  have own := List.find?_some first
  have strings : ∀ c ∈ builtins, c.pack = some := by
    simp only [builtins, List.forall_mem_cons]
    exact ⟨rfl, rfl, rfl, rfl, rfl, rfl, rfl, rfl, List.forall_mem_nil _⟩
  refine ⟨c, mem, of_decide_eq_true own, rfl, fun text => ?_⟩
  rw [strings c mem]
  rfl

/-- What `call` passes to `send_session` beside the session. -/
structure CallArgs where
  addr : LuaSeri.Value
  type : Option LuaNumber
  msg : LuaSeri.Value
  deriving DecidableEq, Repr

/-- The library of service `srv`, its protocol table and the node. -/
structure Caller (n : Nat) where
  srv : ServiceRef
  host : Host
  proto : String → Option CallClass
  core : State n

/-- Everything but nil and false counts as true. -/
def isTrue : LuaSeri.Value → Bool
  | .nil => false
  | .boolean b => b
  | _ => true

variable {n : Nat}

/-- `starnet_handle_findname`; the name ends at its first zero byte. -/
def findName (σ : State n) (name : List UInt8) : UInt32 :=
  match σ.nameMap.find? fun entry => entry.1.toUTF8.toList = name.takeWhile (· ≠ 0) with
  | some (_, handle) => handle
  | none => 0

/-- `LuaAPI::LocalName` of a string. -/
def localName (σ : State n) : List UInt8 → UInt32
  | 46 :: name => findName σ name
  | name => findName σ name

/-- `lua_tolstring` of what `lua_isstring` accepts, with the text of the floats. -/
def stringArg (number2str : UInt64 → List UInt8) : LuaSeri.Value → Option (List UInt8)
  | .string s => some s
  | .integer i => some (toString i.toInt).toUTF8.toList
  | .number bits => some (number2str bits)
  | _ => none

/-- `LuaAPI::SendSession` of service `srv`. -/
def luaSendSession (number2str : UInt64 → List UInt8) (σ : State n) (srv : ServiceRef)
    (args : CallArgs) (session : Int64) : State n :=
  match integerArg args.addr, args.type, stringArg number2str args.msg with
  | some toId, some (.integer type), some text =>
    σ.send toId.toInt32.toUInt32 (Producer.luaSendSession (some (σ.srv srv).id) type session text)
  | _, _, _ => σ

namespace Caller

/-- `resolve_addr_or_nil`. -/
def resolveAddrOrNil (s : Caller n) : LuaSeri.Value → LuaSeri.Value
  | .string name =>
    let handle := localName s.core name
    if handle = 0 then .nil else .integer (pushUInt32 handle)
  | addr => addr

/-- `resolve_addr`. -/
def resolveAddr (s : Caller n) (addr : LuaSeri.Value) : Except CallError LuaSeri.Value :=
  let h := s.resolveAddrOrNil addr
  if isTrue h then .ok h else .error .invalidAddress

/-- `starnet.call` up to `genid`. -/
def prepare (s : Caller n) (addr : LuaSeri.Value) (typename : String) (values : List LuaSeri.Value) :
    Except CallError CallArgs :=
  match s.resolveAddr addr with
  | .error e => .error e
  | .ok addr =>
    match s.proto typename with
    | none => .error .noProtocol
    | some p =>
      match p.pack values with
      | none => .error .pack
      | some msg => .ok ⟨addr, p.id, if isTrue msg then msg else .string []⟩

/-- `starnet.call` up to the `coroutine.yield` of `yield_call`, by a coroutine or outside of the
coroutines, where that raises an error. The address is resolved in the node of `s`, and `core` is
the node when the service is looked up. -/
def call (number2str : UInt64 → List UInt8) (s : Caller n) (core : State n)
    (co : Option (Nat × Task × Bool)) (addr : LuaSeri.Value) (typename : String)
    (values : List LuaSeri.Value) : Except CallError Unit × Caller n :=
  match s.prepare addr typename values with
  | .error e => (.error e, { s with core })
  | .ok args =>
    let (session, host) := s.host.genid
    let core := luaSendSession number2str core s.srv args session
    match co with
    | some (co, task, forks) =>
      (.ok (), { s with host := host.yieldCall session co task forks, core })
    | none => (.error .yieldOutside, { s with host := host.store session host.runningThread, core })

/-! ### Text messages -/

/-- For a text and the id of a service, `call` passes on what it does in the protocol table. -/
theorem prepare_text {s : Caller n} {p : Protocols} {typename : String} {k : CallClass}
    {c : ProtocolClass} (found : s.proto typename = some k) (named : p.named typename = some c)
    (represents : k.Represents c) (addr session : Int64) (text : List UInt8) :
    ∃ args, p.call (some addr) typename text session = .ok args ∧
      s.prepare (.integer addr) typename [.string text] =
        .ok ⟨.integer args.addr, args.type, .string args.text⟩ := by
  have called : p.call (some addr) typename text session =
      .ok ⟨addr, c.id, session, (c.pack text).getD []⟩ := by
    simp only [Protocols.call, named]
  have resolved : s.resolveAddr (.integer addr) = .ok (.integer addr) := rfl
  refine ⟨_, called, ?_⟩
  simp only [prepare, resolved, found, represents.pack, represents.id]
  cases c.pack text <;> rfl

/-- `send_session` sends the message that these arguments stand for. -/
theorem luaSendSession_text (number2str : UInt64 → List UInt8) (σ : State n) (srv : ServiceRef)
    (args : SendArgs) :
    luaSendSession number2str σ srv ⟨.integer args.addr, args.type, .string args.text⟩ args.session =
      match args.message (σ.srv srv).id with
      | some (toId, msg) => σ.send toId msg
      | none => σ := by
  simp only [luaSendSession, integerArg, stringArg, SendArgs.message]
  cases args.type with
  | none => rfl
  | some type => cases type <;> rfl

/-! ### What is expected of a call -/

/-- One request with the next session of `h` was pushed, to a service that is found. -/
def Requested (h : Host) (core core' : State n) : Prop :=
  ∃ r id msg, core.getService id = some r ∧ received msg = some h.genid.1 ∧
    ∀ r', (core'.srv r').mq.msgQueue = (core.srv r').mq.msgQueue ++ if r' = r then [msg] else []

/-- A call that waits has sent its request, and a call that raises an error leaves no entry. -/
def NeverWaits (h : Host) (core : State n) : Except CallError Unit × Caller n → Prop
  | (.ok _, s') => Requested h core s'.core
  | (.error _, s') => ∀ key co, s'.host.sessionIdCoroutine key = some co →
      h.sessionIdCoroutine key = some co

/-- `send_session` accepts the arguments, an `int` holds the session, and the service is found. -/
structure Accepted (h : Host) (core : State n) (args : CallArgs) : Prop where
  address : ∃ toId, integerArg args.addr = some toId ∧
    (core.getService toId.toInt32.toUInt32).isSome
  type : ∃ type, args.type = some (.integer type)
  message : (∃ s, args.msg = .string s) ∨ (∃ i, args.msg = .integer i) ∨ ∃ bits, args.msg = .number bits
  session : (h.sessionGen + 1).toNat < 2 ^ 31

/-- A call that comes to `genid` is accepted; outside of the coroutines no coroutine ran last,
or it has the session already. -/
def Meets (s : Caller n) (core : State n) (co : Option (Nat × Task × Bool)) (addr : LuaSeri.Value)
    (typename : String) (values : List LuaSeri.Value) : Prop :=
  ∀ args, s.prepare addr typename values = .ok args →
    match co with
    | some _ => Accepted s.host core args
    | none => ∀ co, s.host.runningThread = some co →
        s.host.sessionIdCoroutine s.host.genid.1 = some co

/-! ### What is sent -/

variable {h : Host} {core : State n} {args : CallArgs} {number2str : UInt64 → List UInt8}

theorem not_requested_self : ¬ Requested h core core := by
  rintro ⟨r, id, msg, -, -, queues⟩
  have queue := queues r
  rw [if_pos rfl, List.self_eq_append_right] at queue
  cases queue

theorem requested_send_iff (core : State n) (toId : UInt32) (msg : BaseMsg) :
    Requested h core (core.send toId msg) ↔
      (core.getService toId).isSome ∧ received msg = some h.genid.1 := by
  constructor
  · rintro ⟨r, id, msg', -, session, queues⟩
    have queue := queues r
    rw [State.send_msgQueue, if_pos rfl, List.append_cancel_left_eq] at queue
    split at queue
    · next found =>
      cases queue
      rw [found]
      exact ⟨rfl, session⟩
    · cases queue
  · rintro ⟨found, session⟩
    obtain ⟨r, found⟩ := Option.isSome_iff_exists.mp found
    refine ⟨r, toId, msg, found, session, fun r' => ?_⟩
    rw [State.send_msgQueue, found]
    simp only [Option.some.injEq, eq_comm]

theorem stringArg_isSome_iff (number2str : UInt64 → List UInt8) (v : LuaSeri.Value) :
    (stringArg number2str v).isSome ↔
      (∃ s, v = .string s) ∨ (∃ i, v = .integer i) ∨ ∃ bits, v = .number bits := by
  cases v <;> simp [stringArg]

/-- The session of a request comes back exactly when an `int` holds it. -/
theorem received_luaSendSession_iff (self : Option UInt32) (type : Int64) (text : List UInt8) :
    received (Producer.luaSendSession self type h.genid.1 text) = some h.genid.1 ↔
      (h.sessionGen + 1).toNat < 2 ^ 31 := by
  rw [← pushInt_toInt32_eq_iff]
  exact Option.some_inj

/-- A request is pushed exactly when `send_session` accepts the arguments and the service is
found. -/
theorem requested_iff (srv : ServiceRef) :
    Requested h core (luaSendSession number2str core srv args h.genid.1) ↔
      Accepted h core args := by
  unfold luaSendSession
  split
  · next toId type text address integer message =>
    rw [requested_send_iff, received_luaSendSession_iff]
    have string := (stringArg_isSome_iff number2str args.msg).mp (Option.isSome_of_eq_some message)
    constructor
    · rintro ⟨found, session⟩
      exact ⟨⟨toId, address, found⟩, ⟨type, integer⟩, string, session⟩
    · rintro ⟨⟨toId', address', found⟩, -, -, session⟩
      cases address.symm.trans address'
      exact ⟨found, session⟩
  · next rejected =>
    refine iff_of_false not_requested_self ?_
    rintro ⟨⟨toId, address, -⟩, ⟨type, integer⟩, string, -⟩
    obtain ⟨text, message⟩ := Option.isSome_iff_exists.mp
      ((stringArg_isSome_iff number2str args.msg).mpr string)
    exact rejected toId type text address integer message

/-- An entry that is stored is new unless it is empty or was there. -/
theorem store_entries_iff (key : Int64) (co : Option Nat) :
    (∀ key' co', (h.store key co).sessionIdCoroutine key' = some co' →
      h.sessionIdCoroutine key' = some co') ↔
    ∀ co', co = some co' → h.sessionIdCoroutine key = some co' := by
  constructor
  · intro all co' same
    refine all key co' ?_
    rw [← same]
    exact Function.update_self ..
  · intro own key' co' stored
    by_cases same : key' = key
    · subst same
      simp only [Host.store, Function.update_self] at stored
      exact own co' stored
    · simpa only [Host.store, Function.update_of_ne same] using stored

end Caller

end Starnet.Host
