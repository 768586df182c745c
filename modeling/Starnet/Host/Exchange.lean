import Starnet.Core.Registry
import Starnet.Core.Turn
import Starnet.Host.Errors
import Starnet.Host.Protocol
import Starnet.Host.Session

/-! Messages between services by protocol. A node with the host libraries of its services and their
protocol tables; the Lua code of a service registers protocols, sets callbacks, and calls
`starnet.send` and `starnet.call`. `OnMsg` knows the types LUA, RESPONSE and SOCKET, so of the
protocols that a service may register only "lua" is delivered. -/

namespace Starnet.Host

open Starnet.Core Transition

/-- The address that is given to `send` or `call`; a name is without its leading point. -/
inductive Address
  | handle (id : Int64)
  | name (name : String)
  deriving DecidableEq, Repr

/-- `resolve_addr_or_nil`. -/
def resolveAddr {n : Nat} (σ : State n) : Address → Option Int64
  | .handle id => some id
  | .name name =>
    match σ.nameMap.lookup name with
    | none => none
    | some handle => if handle = 0 then none else some (pushUInt32 handle)

/-- A node, the host library of each service and its protocol table. -/
structure Exchange (n : Nat) where
  cluster : Cluster n
  proto : ServiceRef → Protocols

/-- A call of `starnet.send` or `starnet.call` that comes to `send_session`; the message of the
request is the one given to `send` or `call`. -/
structure Sent where
  typename : String
  id : Option LuaNumber
  toId : UInt32
  request : Request
  deriving DecidableEq, Repr

/-- The labels of the steps: those of the cluster, where `OnMsg` tells the callback that it starts,
and the calls of the protocol functions. -/
inductive Move (n : Nat)
  | core (e : Event n)
  | onMsg (w : Fin n) (srv : ServiceRef) (msg : BaseMsg) (start : Option Start)
  | lua (srv : ServiceRef) (op : Op)
  | register (srv : ServiceRef) (c : ProtocolClass)
  | dispatch (srv : ServiceRef) (typename : String) (func : Option Nat)
  | send (srv : ServiceRef) (sent : Sent)
  | call (srv : ServiceRef) (sent : Sent)

variable {n : Nat}

/-- The call of `Starnet::Send` that the thread in the Lua code of service `r` makes. -/
def slot (r : ServiceRef) : Nat := 2 * r

/-- What `LuaAPI::SendSession` gives to `Starnet::Send`; it rejects a type that is no integer. -/
def SendArgs.message (args : SendArgs) (self : UInt32) : Option (UInt32 × BaseMsg) :=
  match args.type with
  | some (.integer type) => some (args.addr.toInt32.toUInt32,
      Producer.luaSendSession (some self) type args.session args.text)
  | _ => none

/-- The arguments of a `call` that `send_session` accepts. -/
def SendArgs.accepted (args : SendArgs) : Option (Int64 × Int64 × List UInt8) :=
  match args.type with
  | some (.integer type) => some (args.addr, type, args.text)
  | _ => none

/-- What service `self` has sent with these arguments, when `text` was given. -/
def SendArgs.sent (args : SendArgs) (self : UInt32) (typename : String) (text : List UInt8) : Sent where
  typename
  id := args.type
  toId := args.addr.toInt32.toUInt32
  request := ⟨args.session, pushUInt32 self, text⟩

namespace Exchange

/-- The state of the node. -/
abbrev core (σ : Exchange n) : State n := σ.cluster.core

/-- The dispatch functions of the services. -/
def serves (σ : Exchange n) (r : ServiceRef) : UInt8 → Bool := (σ.proto r).serves

def setProto (σ : Exchange n) (r : ServiceRef) (p : Protocols) : Exchange n :=
  { σ with proto := Function.update σ.proto r p }

/-- `send_session` by the Lua code of service `r`. -/
def sendSession (σ : Exchange n) (r : ServiceRef) (args : SendArgs) : Exchange n :=
  match args.message (σ.core.srv r).id with
  | some (toId, msg) =>
    { σ with cluster := { σ.cluster with core := σ.core.setCall (slot r) (.sendGet toId msg) } }
  | none => σ

/-- The callback that `OnMsg` starts in service `r`: the library has started the function that it
gave to `co_create`. -/
def starts (σ : Exchange n) (r : ServiceRef) (msg : BaseMsg) : Option Start :=
  let h := σ.cluster.host r
  if (deliver h (σ.serves r) msg).starts = h.starts ++ [h.tasks] then
    match onMsg msg with
    | .onServiceMsg type (some sm) => (σ.proto r).start type sm
    | _ => none
  else none

/-- One step. The Lua code of a service goes on when its call of `Starnet::Send` has returned, and
nothing else makes this call. -/
inductive Step : Exchange n → Move n → Exchange n → Prop
  | core {σ : Exchange n} {e cluster} (h : Cluster.Step σ.serves σ.cluster (.core e) cluster)
      (own : ∀ s, σ.core.call (slot s) = .idle → cluster.core.call (slot s) = .idle) :
      Step σ (.core e) { σ with cluster }
  | onMsg {σ : Exchange n} {w r msg cluster}
      (h : Cluster.Step σ.serves σ.cluster (.onMsg w r msg) cluster) :
      Step σ (.onMsg w r msg (σ.starts r msg)) { σ with cluster }
  | lua {σ : Exchange n} {r op cluster} (h : Cluster.Step σ.serves σ.cluster (.lua r op) cluster)
      (other : ∀ args, op ≠ .act (.call args)) (returned : σ.core.call (slot r) = .idle)
      (own : ∀ k, k ≠ slot r → cluster.core.call k = σ.core.call k) :
      Step σ (.lua r op) { σ with cluster }
  | register {σ : Exchange n} {r c p} (executes : Executes σ.core r)
      (returned : σ.core.call (slot r) = .idle) (ok : (σ.proto r).registerProtocol c = .ok p) :
      Step σ (.register r c) (σ.setProto r p)
  | dispatch {σ : Exchange n} {r typename func p} (executes : Executes σ.core r)
      (returned : σ.core.call (slot r) = .idle) (ok : (σ.proto r).dispatch typename func = .ok p) :
      Step σ (.dispatch r typename func) (σ.setProto r p)
  | send {σ : Exchange n} {r addr typename text args} (executes : Executes σ.core r)
      (returned : σ.core.call (slot r) = .idle)
      (ok : (σ.proto r).send (resolveAddr σ.core addr) typename text = .ok (some args)) :
      Step σ (.send r (args.sent (σ.core.srv r).id typename text)) (σ.sendSession r args)
  | call {σ : Exchange n} {r addr typename text args cluster}
      (ok : (σ.proto r).call (resolveAddr σ.core addr) typename text
        (σ.cluster.host r).genid.1 = .ok args)
      (h : Cluster.Step σ.serves σ.cluster (.lua r (.act (.call args.accepted))) cluster)
      (returned : σ.core.call (slot r) = .idle)
      (own : ∀ k, k ≠ slot r → cluster.core.call k = σ.core.call k) :
      Step σ (.call r (args.sent (σ.core.srv r).id typename text)) { σ with cluster }

end Exchange

/-- A node with `n` workers and no service; a service starts with the table of the library. -/
def exchange (n : Nat) : System (Exchange n) (Move n) where
  init σ := σ.cluster = { core := State.initial n, host := fun _ => {} } ∧
    ∀ r, loaded = .ok (σ.proto r)
  step := Exchange.Step

/-! ### Delivery -/

/-- What the callback of a protocol with id `id` should get of a message. -/
def requestOf (id : LuaNumber) (msg : BaseMsg) : Option Request :=
  if id = .integer (Int64.ofNat msg.type.toNat) then
    msg.asServiceMsg.map fun sm => ⟨pushInt sm.session, pushUInt32 sm.source, sm.buff⟩
  else none

/-- The request, if it is sent to the service with id `toId` by the protocol with this name and
id. -/
def Sent.requestTo (sent : Sent) (toId : UInt32) (name : String) (id : LuaNumber) : List Request :=
  if sent.toId = toId ∧ sent.typename = name ∧ sent.id = some id then [sent.request] else []

namespace Move

/-- The messages that are pushed to `r`. -/
def pushed (r : ServiceRef) : Move n → List BaseMsg
  | core e => (e.pushed r).toList
  | _ => []

/-- The messages that the Lua code of `s` pushes to `r`. -/
def pushedBy (s r : ServiceRef) : Move n → List BaseMsg
  | core e => e.pushedIn (slot s) r
  | _ => []

/-- The requests that the Lua code of `s` sends to the service with id `toId` by the protocol with
this name and id. -/
def sentBy (s : ServiceRef) (toId : UInt32) (name : String) (id : LuaNumber) :
    Move n → List Request
  | send srv sent | call srv sent => if srv = s then sent.requestTo toId name id else []
  | _ => []

/-- The message that `OnMsg` of `r` gets. -/
def handed (r : ServiceRef) : Move n → List BaseMsg
  | onMsg _ srv msg _ => if srv = r then [msg] else []
  | _ => []

/-- The starts of callbacks of the protocol `name` in `r`. -/
def started (r : ServiceRef) (name : String) : Move n → List Start
  | onMsg _ srv _ start => start.toList.filter fun start => srv = r ∧ start.typename = name
  | _ => []

end Move

/-- What was under way before the moves `tr`, and what is sent in them, by a protocol to service
`r`. Each request of a service is pushed to `r` once, in sending order, except for one that is still
under way; and each request pushed to `r` is one start of the callback `f`, in the order of the
pushes, except for those that `OnMsg` has not got yet. -/
structure Delivered (σ₀ σ : Exchange n) (tr : List (Move n)) (r : ServiceRef) (toId : UInt32)
    (name : String) (id : LuaNumber) (f : Nat) : Prop where
  pushed : ∀ s, ((σ₀.core.call (slot s)).underway toId r).filterMap (requestOf id) ++
      tr.flatMap (Move.sentBy s toId name id) =
    (tr.flatMap (Move.pushedBy s r)).filterMap (requestOf id) ++
      ((σ.core.call (slot s)).underway toId r).filterMap (requestOf id)
  started : (σ₀.core.pending r ++ tr.flatMap (Move.pushed r)).filterMap (requestOf id) =
    (tr.flatMap (Move.started r name)).map Start.request ++
      (σ.core.pending r).filterMap (requestOf id)
  callback : ∀ start ∈ tr.flatMap (Move.started r name), start.callback = f

/-- A `call` by the protocol `name` takes a session that an `int` holds. -/
def ShortSession (name : String) (σ : Exchange n) (l : Move n) : Prop :=
  ∀ s sent, l = .call s sent → sent.typename = name →
    (σ.cluster.host s).sessionGen.toNat + 1 < 2 ^ 31

/-- While service `r` is found under an id and keeps its callback for the protocol, what is sent to
it by the protocol is delivered. -/
def Delivers (c : ProtocolClass) (id : LuaNumber) : Prop :=
  ∀ (n : Nat) (σ₀ σ : Exchange n) (before tr : List (Move n)) (r : ServiceRef) (toId : UInt32) (f : Nat),
    (exchange n).Run σ₀ before → (((exchange n).restrict (ShortSession c.name)).after σ₀).Run σ tr →
    (σ₀.proto r).named c.name = some { c with dispatch := some f } →
    (∀ func, .dispatch r c.name func ∉ tr) →
    σ₀.core.getService toId = some r → σ.core.getService toId = some r →
    Delivered σ₀ σ tr r toId c.name id f

/-! ### Types and ids -/

/-- A message has the id of "lua" exactly when its type is LUA. -/
theorem ptypeLua_eq_iff {type : UInt8} :
    ptypeLua = .integer (Int64.ofNat type.toNat) ↔ type = MsgType.lua := by
  have bound := type.toNat_lt
  rw [ptypeLua, LuaNumber.integer.injEq, ← Int64.toInt_inj, Int64.toInt_ofNat_of_lt (by omega),
    ← UInt8.toNat_inj]
  show (10 : Int) = _ ↔ type.toNat = 10
  omega

theorem requestOf_lua {msg : BaseMsg} {sm : ServiceMsg} (type : msg.type = MsgType.lua)
    (body : msg.body = .service sm) : requestOf ptypeLua msg =
      some ⟨pushInt sm.session, pushUInt32 sm.source, sm.buff⟩ := by
  rw [requestOf, if_pos (ptypeLua_eq_iff.mpr type), BaseMsg.asServiceMsg, body]
  rfl

theorem requestOf_of_ne {msg : BaseMsg} (type : msg.type ≠ MsgType.lua) :
    requestOf ptypeLua msg = none :=
  if_neg (mt ptypeLua_eq_iff.mp type)

/-- An id in the range of a type is sent as it is. -/
theorem toNat_type {type : Int64} (range : 0 ≤ (LuaNumber.integer type).value ∧
    (LuaNumber.integer type).value ≤ 255) :
    (type.toInt32.toUInt32.toUInt8.toNat : Int) = type.toInt := by
  have nonneg : 0 ≤ type.toInt := Rat.intCast_nonneg.mp range.1
  have small : type.toInt ≤ 255 := Rat.intCast_le_intCast.mp range.2
  rw [toNat_lowByte]
  omega

/-- Such an id is the number of the type of the message. -/
theorem integer_type {type : Int64} (range : 0 ≤ (LuaNumber.integer type).value ∧
    (LuaNumber.integer type).value ≤ 255) :
    LuaNumber.integer type =
      .integer (Int64.ofNat type.toInt32.toUInt32.toUInt8.toNat) := by
  have bound := type.toInt32.toUInt32.toUInt8.toNat_lt
  rw [LuaNumber.integer.injEq, ← Int64.toInt_inj, Int64.toInt_ofNat_of_lt (by omega), toNat_type range]

/-! ### What is sent -/

variable {p : Protocols} {c : ProtocolClass} {args : SendArgs} {typename : String}
  {text : List UInt8}

/-- The arguments come from the class with this name. -/
structure SendArgs.From (args : SendArgs) (p : Protocols) (typename : String) (text : List UInt8)
    (session : Int64) : Prop where
  named : ∃ c, p.named typename = some c ∧ args.type = c.id ∧ args.text = (c.pack text).getD []
  session : args.session = session

theorem from_send {addr : Option Int64} (ok : p.send addr typename text = .ok (some args)) :
    args.From p typename text 0 := by
  unfold Protocols.send at ok
  split at ok
  · cases ok
  · next c found =>
    split at ok
    · cases ok
    · cases ok
      exact ⟨⟨c, found, rfl, rfl⟩, rfl⟩

theorem from_call {addr : Option Int64} {session : Int64}
    (ok : p.call addr typename text session = .ok args) : args.From p typename text session := by
  unfold Protocols.call at ok
  split at ok
  · cases ok
  · split at ok
    · cases ok
    · next c found =>
      cases ok
      exact ⟨⟨c, found, rfl, rfl⟩, rfl⟩

/-- The call of `Starnet::Send` that `send_session` starts, if it does. -/
def SendArgs.pc (args : SendArgs) (self : UInt32) : CallPc :=
  match args.message self with
  | some (toId, msg) => .sendGet toId msg
  | none => .idle

/-- The request that is under way after `send_session` is the one that was to be sent by "lua". -/
theorem SendArgs.From.underway {session : Int64} (sends : args.From p typename text session)
    (l : p.Loaded) (short : typename = "lua" → pushInt session.toInt32 = session) (self : UInt32)
    (toId : UInt32) (r : ServiceRef) :
    ((args.pc self).underway toId r).filterMap (requestOf ptypeLua) =
      (args.sent self typename text).requestTo toId "lua" ptypeLua := by
  obtain ⟨⟨c, found, type, packed⟩, rfl⟩ := sends
  obtain ⟨-, ids⟩ := l.toWellFormed.named_name found
  cases id : args.type with
  | none => simp [pc, message, id, CallPc.underway, Sent.requestTo, sent]
  | some id' =>
    cases id' with
    | float x => simp [pc, message, id, CallPc.underway, Sent.requestTo, sent, ptypeLua]
    | integer i =>
      have sends : args.pc self = .sendGet args.addr.toInt32.toUInt32
          (Producer.luaSendSession (some self) i args.session args.text) := by
        rw [pc, message, id]
      rw [sends, CallPc.underway]
      by_cases ten : i = 10
      · subst ten
        obtain ⟨rfl, func, rfl⟩ := l.eq_luaClass found (type.symm.trans id) rfl
        have request : requestOf ptypeLua (Producer.luaSendSession (some self) 10 args.session
            args.text) = some ⟨args.session, pushUInt32 self, text⟩ := by
          rw [requestOf_lua rfl rfl, short rfl, packed]
          rfl
        by_cases there : args.addr.toInt32.toUInt32 = toId
        · rw [if_pos there, List.filterMap_cons_some request]
          simp [there, Sent.requestTo, sent, id, ptypeLua]
        · simp [there, Sent.requestTo, sent]
      · have byte := toNat_type (ids _ (type.symm.trans id))
        have other : (Producer.luaSendSession (some self) i args.session args.text).type ≠
            MsgType.lua := by
          intro lua
          have value : i.toInt = 10 := by
            rw [← byte]
            exact congrArg (fun type : UInt8 => (type.toNat : Int)) lua
          exact ten (Int64.toInt_inj.mp value)
        have none : (if args.addr.toInt32.toUInt32 = toId then [Producer.luaSendSession (some self) i
            args.session args.text] else []).filterMap (requestOf ptypeLua) = [] := by
          split <;> simp [requestOf_of_ne other]
        rw [none, Sent.requestTo, if_neg]
        simp [sent, id, ptypeLua, ten]

variable {h h' : Host} {f : Nat}

/-- What `call` sends is what `send_session` accepts of its arguments. -/
theorem call_sent {self : UInt32} {dispatch : UInt8 → Bool}
    (taken : h.step self dispatch (.act (.call args.accepted)) = some h')
    (session : args.session = h.genid.1) : h'.sent = h.sent ++ (args.message self).toList := by
  obtain ⟨_, _, _, -, op, -⟩ | ⟨-, op, -⟩ | ⟨-, op, -⟩ | ⟨co, forks, task, a, -, -, op, rfl⟩ :=
    step_cases taken
  · cases op
  · cases op
  · cases op
  · cases op
    unfold SendArgs.accepted SendArgs.message
    split
    · rw [session]
      rfl
    · exact (List.append_nil _).symm

/-- A call of `Starnet::Send` that Lua code starts is its own. -/
theorem eq_slot {core : State n} {k : Nat} {r : ServiceRef} {toId : UInt32} {msg : BaseMsg}
    (free : core.call k = .idle)
    (own : ∀ k', k' ≠ slot r → (core.setCall k (.sendGet toId msg)).call k' = core.call k') :
    k = slot r := by
  by_contra ne
  have same := own k ne
  rw [State.setCall_call_same, free] at same
  cases same

theorem slot_ne {r r' : ServiceRef} (ne : r ≠ r') : slot r ≠ slot r' :=
  fun same => ne (Nat.mul_left_cancel Nat.two_pos same)

/-! ### Starts of callbacks -/

/-- The function that `raw_dispatch_message` or `dispatch_in_coroutine` gives to `co_create` is
started at once. -/
theorem handle_starts (placed : Placed h) (request : Option (Int32 × UInt32))
    (session address : Option Int64) (ok forks : Bool) :
    (((h.coCreate request).2.setContext (h.coCreate request).1 session address).resume
      (h.coCreate request).1 ok forks).starts = h.starts ++ [h.tasks] := by
  have created := placed.coCreate request
  obtain ⟨-, -, -, -, -, -, -, starts, -⟩ := created.keeps
  have loose : Loose ((h.coCreate request).2.setContext (h.coCreate request).1 session address)
      (h.coCreate request).1 ⟨h.tasks, request⟩ :=
    ⟨created.loose.status, created.loose.forkQueue, created.loose.sessions⟩
  have status : ((h.coCreate request).2.setContext (h.coCreate request).1 session address).status
      (h.coCreate request).1 = .created (some ⟨h.tasks, request⟩) := by
    show (h.coCreate request).2.status (h.coCreate request).1 = _
    rw [created.status, Function.update_self]
  obtain ⟨-, -, -, -, -, -, -, started⟩ := resume_loose loose ok forks
  rw [started, status, if_neg (by simp)]
  show (h.coCreate request).2.starts ++ [h.tasks] = _
  rw [starts]

namespace Exchange

variable {σ σ' : Exchange n} {l : Move n} {r : ServiceRef}

/-- `OnMsg` starts the callback of "lua" for a message of its type, and no other callback. -/
theorem starts_eq (good : Good (σ.cluster.host r)) (l : (σ.proto r).Loaded)
    (found : (σ.proto r).named "lua" = some (luaClass (some f))) (msg : BaseMsg) :
    σ.starts r msg = (requestOf ptypeLua msg).map (Start.mk "lua" f) := by
  by_cases lua : msg.type = MsgType.lua
  · cases body : msg.body with
    | service sm =>
      have call : onMsg msg = .onServiceMsg MsgType.lua (some sm) := by
        rw [onMsg, if_pos (.inl lua), BaseMsg.asServiceMsg, body, lua]
      have started : (deliver (σ.cluster.host r) (σ.serves r) msg).starts =
          (σ.cluster.host r).starts ++ [(σ.cluster.host r).tasks] := by
        have served : σ.serves r MsgType.lua = true := l.serves_lua found
        rw [deliver, call]
        simp only [Host.rawDispatchMessage]
        rw [if_neg (by decide), if_neg (by decide), if_pos served]
        exact handle_starts good.placed ..
      rw [requestOf_lua lua body]
      simp only [starts]
      rw [if_pos started, call]
      exact l.start_lua found sm
    | socket sm =>
      have call : onMsg msg = .onServiceMsg MsgType.lua none := by
        rw [onMsg, if_pos (.inl lua), BaseMsg.asServiceMsg, body, lua]
      have nothing : requestOf ptypeLua msg = none := by
        rw [requestOf, BaseMsg.asServiceMsg, body]
        simp
      rw [nothing]
      simp [starts, call]
  · rw [requestOf_of_ne lua]
    have nothing : (match onMsg msg with
        | .onServiceMsg type (some sm) => (σ.proto r).start type sm
        | _ => none) = none := by
      by_cases response : msg.type = MsgType.response
      · rw [onMsg, if_pos (.inr response), response]
        cases msg.asServiceMsg <;> simp [Protocols.start]
      · rw [onMsg, if_neg (not_or.mpr ⟨lua, response⟩)]
        by_cases socket : msg.type = MsgType.socket
        · rw [if_pos socket]
        · rw [if_neg socket]
    simp [starts, nothing]

/-! ### Steps -/

/-- What holds in every state: the node is one of a run, the libraries are in order, and every table
has the classes of the library. -/
structure Sound (σ : Exchange n) : Prop where
  node : ∃ events, (node n).Run σ.core events
  host : ∀ r, Unfailed (σ.cluster.host r)
  proto : ∀ r, (σ.proto r).Loaded

theorem setProto_loaded {p : Protocols} (all : ∀ r, (σ.proto r).Loaded) (l : p.Loaded)
    (r' : ServiceRef) : ((σ.setProto r p).proto r').Loaded := by
  simp only [setProto]
  by_cases same : r' = r
  · rw [same, Function.update_self]
    exact l
  · rw [Function.update_of_ne same]
    exact all r'

theorem sendSession_core (args : SendArgs) (returned : σ.core.call (slot r) = .idle) :
    (σ.sendSession r args).core =
      σ.core.setCall (slot r) (args.pc (σ.core.srv r).id) := by
  unfold sendSession SendArgs.pc
  split
  · rfl
  · show σ.core = _
    rw [State.setCall, ← returned, Function.update_eq_self]

/-- A step keeps the node or is a step of it. -/
theorem Step.core_cases (step : Step σ l σ') :
    σ'.core = σ.core ∨ ∃ e, Core.Step σ.core e σ'.core := by
  cases step with
  | core h | onMsg h | lua h | call _ h =>
    exact h.core_cases.imp_right fun ⟨e, step, _⟩ => ⟨e, step⟩
  | register | dispatch => exact .inl rfl
  | @send r addr typename text args _ returned =>
    unfold sendSession
    split
    · exact .inr ⟨_, .call (.send _ _ returned)⟩
    · exact .inl rfl

theorem Sound.step (s : Sound σ) (step : Step σ l σ') : Sound σ' := by
  refine ⟨?_, ?_, ?_⟩
  · obtain ⟨events, run⟩ := s.node
    rcases step.core_cases with same | ⟨e, step⟩
    · exact ⟨events, same ▸ run⟩
    · exact ⟨_, run.step step⟩
  · cases step with
    | core h | onMsg h | lua h | call _ h => exact h.unfailed s.host
    | register | dispatch => exact s.host
    | send =>
      unfold sendSession
      split <;> exact s.host
  · cases step with
    | core | onMsg | lua | call => exact s.proto
    | register _ _ ok => exact setProto_loaded s.proto ((s.proto _).registerProtocol ok)
    | dispatch _ _ ok => exact setProto_loaded s.proto ((s.proto _).dispatch ok)
    | send =>
      unfold sendSession
      split <;> exact s.proto

theorem Sound.run {tr : List (Move n)} (run : (exchange n).Run σ tr) : Sound σ := by
  refine run.stateInvariant ?_ fun _ _ _ s step => s.step step
  rintro σ ⟨cluster, proto⟩
  refine ⟨⟨[], .init (congrArg Cluster.core cluster)⟩, fun r => ?_, fun r => .of_loaded (proto r)⟩
  rw [cluster]
  exact ⟨.empty, rfl⟩

/-- Only `dispatch` changes the callback of "lua". -/
theorem Step.named_lua (step : Step σ l σ') (s : Sound σ)
    (keeps : ∀ func, l ≠ .dispatch r "lua" func)
    (found : (σ.proto r).named "lua" = some (luaClass (some f))) :
    (σ'.proto r).named "lua" = some (luaClass (some f)) := by
  have update : ∀ {r' p}, (r' = r → p.named "lua" = some (luaClass (some f))) →
      ((σ.setProto r' p).proto r).named "lua" = some (luaClass (some f)) := by
    intro r' p mine
    simp only [setProto]
    by_cases same : r = r'
    · subst same
      rw [Function.update_self]
      exact mine rfl
    · rwa [Function.update_of_ne same]
  cases step with
  | core | onMsg | lua | call => exact found
  | register _ _ ok =>
    refine update fun same => ?_
    subst same
    exact Protocols.named_registerProtocol_of_named found ok
  | @dispatch r' typename func p _ _ ok =>
    refine update fun same => ?_
    subst same
    refine (s.proto r').toWellFormed.named_dispatch_of_ne ?_ found ok
    rintro rfl
    exact keeps func rfl
  | send =>
    unfold sendSession
    split <;> exact found

/-- While `r` has not exited, a step hands the first pending message to `OnMsg`, or adds the one
that it pushes to the pending messages. -/
theorem Step.pending (step : Step σ l σ') (s : Sound σ) (live : (σ.core.srv r).exited = false) :
    σ.core.pending r ++ l.pushed r = l.handed r ++ σ'.core.pending r := by
  obtain ⟨events, run⟩ := s.node
  have taken : ∀ {e}, Core.Step σ.core e σ'.core → _ := fun step =>
    step.pending (Born.run run) (Token.run run r) (Token.run (run.step step) r) live
  have same : σ'.core.pending r = σ.core.pending r → l.pushed r = [] → l.handed r = [] →
      σ.core.pending r ++ l.pushed r = l.handed r ++ σ'.core.pending r := by
    intro kept pushed handed
    rw [pushed, handed, kept, List.append_nil, List.nil_append]
  cases step with
  | core h =>
    cases h with
    | core h outside =>
      rcases taken h with ⟨w, i, msg, before, after, -⟩ | ⟨-, eq⟩
      · have inside := outside w r i msg after
        rw [before] at inside
        cases inside
      · exact eq.symm
  | @onMsg w r' msg cluster h =>
    cases h with
    | @onMsg _ _ i _ h free =>
      have now : ((σ.core.modQueue r' fun mq => mq.takeOverload.2).setWorker w
          (.onMsg r' i msg)).worker w = .onMsg r' i msg := State.setWorker_worker_same ..
      by_cases mine : r' = r
      · subst mine
        rcases taken (.turn (.readOverload h free)) with ⟨w', i', msg', before, after, eq⟩ | ⟨stays, -⟩
        · have held : (σ.core.worker w).held = some r' := by rw [h]; rfl
          rw [(Token.run run r').inHand_holder held before, h] at before
          cases before
          simpa [Move.pushed, Move.handed] using eq
        · cases now.symm.trans (stays w i msg h)
      · rcases taken (.turn (.readOverload h free)) with ⟨w', i', msg', before, after, -⟩ | ⟨-, eq⟩
        · by_cases first : w' = w
          · rw [first] at after
            cases now.symm.trans after
            exact absurd rfl mine
          · have still := State.setWorker_worker_other (σ.core.modQueue r' fun mq => mq.takeOverload.2) w
              (.onMsg r' i msg) first
            cases (still.trans before).symm.trans after
        · refine same ?_ rfl (if_neg mine)
          simpa [Event.pushed] using eq
  | lua h | call _ h => cases h <;> exact same rfl rfl rfl
  | register | dispatch => exact same rfl rfl rfl
  | send _ returned =>
    refine same ?_ rfl rfl
    rw [sendSession_core _ returned]
    rfl

variable {toId : UInt32}

/-- The session of a `call` comes back from an `int`. -/
theorem short_session {s : ServiceRef} {sent : Sent} (short : ShortSession "lua" σ (.call s sent))
    (name : sent.typename = "lua") :
    pushInt (σ.cluster.host s).genid.1.toInt32 = (σ.cluster.host s).genid.1 := by
  have bound := short s sent rfl name
  refine (pushInt_toInt32_eq_iff _).mpr ?_
  show ((σ.cluster.host s).sessionGen + 1).toNat < 2 ^ 31
  rw [UInt32.toNat_add]
  exact Nat.lt_of_le_of_lt (Nat.mod_le _ _) bound

/-- What the Lua code of `self` has under way to `r` by "lua" is what it sent and not yet pushed. -/
theorem Step.underway (step : Step σ l σ') (s : Sound σ) (short : ShortSession "lua" σ l)
    (found : σ.core.getService toId = some r) (self : ServiceRef) :
    ((σ.core.call (slot self)).underway toId r).filterMap (requestOf ptypeLua) ++
        l.sentBy self toId "lua" ptypeLua =
      (l.pushedBy self r).filterMap (requestOf ptypeLua) ++
        ((σ'.core.call (slot self)).underway toId r).filterMap (requestOf ptypeLua) := by
  have same : σ'.core.call (slot self) = σ.core.call (slot self) →
      l.sentBy self toId "lua" ptypeLua = [] → l.pushedBy self r = [] →
      ((σ.core.call (slot self)).underway toId r).filterMap (requestOf ptypeLua) ++
          l.sentBy self toId "lua" ptypeLua =
        (l.pushedBy self r).filterMap (requestOf ptypeLua) ++
          ((σ'.core.call (slot self)).underway toId r).filterMap (requestOf ptypeLua) := by
    intro call sent pushed
    rw [call, sent, pushed, List.append_nil]
    rfl
  have sends : ∀ {r' : ServiceRef} {args : SendArgs} {typename : String} {text : List UInt8}
      {session : Int64}, args.From (σ.proto r') typename text session →
      (typename = "lua" → pushInt session.toInt32 = session) →
      σ.core.call (slot r') = .idle →
      σ'.core.call = Function.update σ.core.call (slot r') (args.pc (σ.core.srv r').id) →
      l.sentBy self toId "lua" ptypeLua = (if r' = self then
        (args.sent (σ.core.srv r').id typename text).requestTo toId "lua" ptypeLua else []) →
      l.pushedBy self r = [] →
      ((σ.core.call (slot self)).underway toId r).filterMap (requestOf ptypeLua) ++
          l.sentBy self toId "lua" ptypeLua =
        (l.pushedBy self r).filterMap (requestOf ptypeLua) ++
          ((σ'.core.call (slot self)).underway toId r).filterMap (requestOf ptypeLua) := by
    intro r' args typename text session from' fits returned call sent pushed
    by_cases mine : r' = self
    · subst mine
      rw [call, Function.update_self, from'.underway (s.proto r') fits, sent, if_pos rfl, pushed,
        returned]
      rfl
    · refine same ?_ (by rw [sent, if_neg mine]) pushed
      rw [call, Function.update_of_ne (slot_ne (Ne.symm mine))]
  obtain ⟨events, run⟩ := s.node
  cases step with
  | core h own =>
    cases h with
    | core h =>
      have moved := h.underway (Registry.run run) found (own self)
      rw [moved, List.filterMap_append]
      exact List.append_nil _
  | onMsg h => cases h with | onMsg => exact same rfl rfl rfl
  | @lua r' op cluster h other returned own =>
    cases h with
    | lua => exact same rfl rfl rfl
    | @luaSend _ _ _ k toId' msg allows taken sent free =>
      obtain rfl := eq_slot free own
      by_cases mine : r' = self
      · subst mine
        have response : msg.type = MsgType.response := by
          refine (step_sent (s.host r').good taken sent).resolve_right ?_
          rintro ⟨addr, type, buff, rfl, -⟩
          exact other _ rfl
        have none : requestOf ptypeLua msg = none := by
          refine requestOf_of_ne ?_
          rw [response]
          decide
        have now : (σ.core.setCall (slot r') (.sendGet toId' msg)).call (slot r') =
            .sendGet toId' msg := State.setCall_call_same ..
        show _ = [] ++ (((σ.core.setCall (slot r') (.sendGet toId' msg)).call (slot r')).underway toId
          r).filterMap (requestOf ptypeLua)
        rw [returned, now, CallPc.underway]
        split <;> simp [CallPc.underway, Move.sentBy, none]
      · exact same (own _ (slot_ne (Ne.symm mine))) rfl rfl
  | register | dispatch => exact same rfl rfl rfl
  | @send r' addr typename text args _ returned ok =>
    refine sends (from_send ok) (fun _ => rfl) returned ?_ rfl rfl
    rw [sendSession_core _ returned]
    rfl
  | @call r' addr typename text args cluster ok h returned own =>
    have from' := from_call ok
    refine sends from' (short_session short) returned ?_ rfl rfl
    cases h with
    | lua _ taken sent =>
      have nothing : args.message (σ.core.srv r').id = none := by
        have grown := call_sent taken from'.session
        rw [sent] at grown
        simpa using grown
      show σ.core.call = _
      rw [SendArgs.pc, nothing, ← returned, Function.update_eq_self]
    | @luaSend _ _ _ k toId' msg _ taken sent free =>
      obtain rfl := eq_slot free own
      have message : args.message (σ.core.srv r').id = some (toId', msg) := by
        have grown := call_sent taken from'.session
        rw [sent] at grown
        exact Option.toList_eq_singleton_iff.mp (List.append_cancel_left grown).symm
      rw [SendArgs.pc, message]
      rfl

/-! ### Runs -/

variable {σ₀ : Exchange n} {before tr : List (Move n)}

/-- The state of a run of the node that goes on from a reached one. -/
theorem Sound.later (run : (exchange n).Run σ₀ before) {C : Exchange n → Move n → Prop}
    (later : (((exchange n).restrict C).after σ₀).Run σ tr) : Sound σ := by
  have unrestricted : ((exchange n).after σ₀).Run σ tr :=
    System.Run.of_restrict (S := (exchange n).after σ₀) (C := C) later
  exact Sound.run (run.append unrestricted)

/-- What `OnMsg` gets of "lua" is what its callback is started with. -/
theorem Step.started (step : Step σ l σ') (s : Sound σ)
    (found : (σ.proto r).named "lua" = some (luaClass (some f))) :
    l.started r "lua" = ((l.handed r).filterMap (requestOf ptypeLua)).map (Start.mk "lua" f) := by
  cases step with
  | @onMsg w r' msg =>
    by_cases mine : r' = r
    · subst mine
      have start := starts_eq (s.host r').good (s.proto r') found msg
      simp only [Move.started, Move.handed, start, if_true, List.filterMap_cons, List.filterMap_nil]
      cases requestOf ptypeLua msg <;> simp
    · simp [Move.started, Move.handed, mine]
  | _ => rfl

/-- A service that has been found and is found now is found in between. -/
theorem Step.found_of (step : Step σ l σ') (old : r < σ.core.nextRef)
    (found : σ'.core.getService toId = some r) : σ.core.getService toId = some r := by
  rcases step.core_cases with same | ⟨e, step⟩
  · rwa [same] at found
  · exact step.found_of old found

theorem Step.nextRef_le (step : Step σ l σ') : σ.core.nextRef ≤ σ'.core.nextRef := by
  rcases step.core_cases with same | ⟨e, step⟩
  · rw [same]
  · exact step.nextRef_le

/-- Along a run from `σ₀` the messages of "lua" to a service that keeps its callback are
delivered. -/
theorem delivered_lua (run : (exchange n).Run σ₀ before)
    (later : (((exchange n).restrict (ShortSession "lua")).after σ₀).Run σ tr)
    (found₀ : (σ₀.proto r).named "lua" = some (luaClass (some f)))
    (keeps : ∀ func, .dispatch r "lua" func ∉ tr) (old : σ₀.core.getService toId = some r)
    (listed : σ.core.getService toId = some r) :
    Delivered σ₀ σ tr r toId "lua" ptypeLua f := by
  suffices r < σ.core.nextRef ∧ ((∀ func, .dispatch r "lua" func ∉ tr) →
      (σ.proto r).named "lua" = some (luaClass (some f)) ∧
      (σ.core.getService toId = some r → Delivered σ₀ σ tr r toId "lua" ptypeLua f)) from
    (this.2 keeps).2 listed
  refine later.invariant (P := fun σ tr => r < σ.core.nextRef ∧
    ((∀ func, .dispatch r "lua" func ∉ tr) →
      (σ.proto r).named "lua" = some (luaClass (some f)) ∧
      (σ.core.getService toId = some r → Delivered σ₀ σ tr r toId "lua" ptypeLua f))) ?_ ?_
  · rintro σ rfl
    obtain ⟨events, node⟩ := (Sound.run run).node
    refine ⟨(Born.run node).found old, fun _ => ⟨found₀, fun _ => ⟨fun s => ?_, ?_, ?_⟩⟩⟩
    · simp
    · simp
    · simp
  · rintro σ tr l σ' later ⟨born, ih⟩ ⟨step, short⟩
    have sound := Sound.later run later
    refine ⟨Nat.lt_of_lt_of_le born step.nextRef_le, fun keeps => ?_⟩
    obtain ⟨found, ih⟩ := ih fun func mem => keeps func (List.mem_append_left _ mem)
    refine ⟨step.named_lua sound (fun func eq => keeps func ?_) found, fun listed => ?_⟩
    · rw [eq]
      exact List.mem_append_right _ (List.mem_singleton_self _)
    · have listed := step.found_of born listed
      have d := ih listed
      obtain ⟨events, node⟩ := sound.node
      have live : (σ.core.srv r).exited = false := by
        by_contra exited
        have marked := isExiting_of_exited node r (by simpa using exited)
        rw [not_isExiting_of_found node listed] at marked
        cases marked
      have pending := step.pending sound live
      have started := step.started sound found
      constructor
      · intro s
        have moved := step.underway sound short listed s
        simp only [List.flatMap_append, List.flatMap_singleton, List.filterMap_append]
        rw [← List.append_assoc, d.pushed s, List.append_assoc, moved, ← List.append_assoc]
      · have requests : (l.started r "lua").map Start.request =
            (l.handed r).filterMap (requestOf ptypeLua) := by
          rw [started, List.map_map]
          exact List.map_id _
        simp only [List.flatMap_append, List.flatMap_singleton, List.map_append]
        rw [← List.append_assoc, List.filterMap_append, d.started, List.append_assoc,
          ← List.filterMap_append, pending, List.filterMap_append, requests, List.append_assoc]
      · intro start mem
        simp only [List.flatMap_append, List.flatMap_singleton] at mem
        rcases List.mem_append.mp mem with mem | mem
        · exact d.callback start mem
        · rw [started] at mem
          obtain ⟨request, -, rfl⟩ := List.mem_map.mp mem
          rfl

end Exchange

/-! ### Other protocols -/

/-- A call that goes on was not idle. -/
theorem own_setCall {core τ : State n} {k : Nat} {pc : CallPc} (call : τ.call = core.call)
    (busy : core.call k ≠ .idle) (s : ServiceRef) (idle : core.call (slot s) = .idle) :
    (τ.setCall k pc).call (slot s) = .idle := by
  rw [State.setCall_call_other, call, idle]
  rintro rfl
  exact busy idle

/-- A node with a service that executes its main chunk. -/
def inMainChunk : State 1 :=
  (State.initial 1).newService.modService 0 fun s => { s with phase := .running }

section

variable {core core' : State 1} {proto : ServiceRef → Protocols} {C : Exchange 1 → Move 1 → Prop}
  {S : System (Exchange 1) (Move 1)} {tr : List (Move 1)}
  (steps : ∀ σ l σ', S.step σ l σ' ↔ Exchange.Step σ l σ' ∧ C σ l)

include steps

/-- A step of the node while no coroutine runs. -/
theorem run_node {e : Event 1} (run : S.Run ⟨⟨core, fun _ => {}⟩, proto⟩ tr)
    (h : Core.Step core e core') (meets : ∀ σ, C σ (.core e))
    (own : ∀ s, core.call (slot s) = .idle → core'.call (slot s) = .idle)
    (outside : ∀ r i msg, core'.worker 0 ≠ .onMsg r i msg := by rintro _ _ _ ⟨⟩) :
    S.Run ⟨⟨core', fun _ => {}⟩, proto⟩ (tr ++ [.core e]) := by
  refine run.step ((steps _ _ _).mpr ⟨.core (.core h (fun w r i msg enters => ?_) fun _ _ _ => rfl) own,
    meets _⟩)
  rw [Subsingleton.elim w 0] at enters
  exact absurd enters (outside r i msg)

end

/-- The library of the service is loaded. -/
theorem run_loaded {p : Protocols} (ok : loaded = .ok p) :
    ∃ before, (exchange 1).Run ⟨⟨inMainChunk, fun _ => {}⟩, fun _ => p⟩ before := by
  have steps : ∀ σ l σ', (exchange 1).step σ l σ' ↔ Exchange.Step σ l σ' ∧ True :=
    fun _ _ _ => (and_iff_left trivial).symm
  have h0 : (exchange 1).Run ⟨⟨State.initial 1, fun _ => {}⟩, fun _ => p⟩ [] := .init ⟨rfl, fun _ => ok⟩
  have h1 := run_node (C := fun _ _ => True) steps h0 (.service (.newService _)) (fun _ => trivial)
    fun _ => id
  exact ⟨_, run_node (C := fun _ _ => True) steps h1 (.service (.onInit (r := 0) rfl))
    (fun _ => trivial) fun _ => id⟩

/-- A message with a type that `OnMsg` does not know. -/
theorem onMsg_ignored {msg : BaseMsg} (lua : msg.type ≠ MsgType.lua)
    (response : msg.type ≠ MsgType.response) (socket : msg.type ≠ MsgType.socket) :
    onMsg msg = .ignored := by
  rw [onMsg, if_neg (not_or.mpr ⟨lua, response⟩), if_neg socket]

section

variable {proto : ServiceRef → Protocols} {C : Exchange 1 → Move 1 → Prop}

theorem starts_ignored {σ : Exchange n} {r : ServiceRef} {msg : BaseMsg}
    (ignored : onMsg msg = .ignored) : σ.starts r msg = none := by
  rw [Exchange.starts, ignored]
  exact ite_self _

/-- The main chunk sends an empty message to its own service by the protocol `typename`. -/
theorem run_send (found : (proto 0).named typename = some c) (quiet : ∀ σ sent, C σ (.send 0 sent)) :
    (((exchange 1).restrict C).after ⟨⟨inMainChunk, fun _ => {}⟩, proto⟩).Run
      (Exchange.sendSession ⟨⟨inMainChunk, fun _ => {}⟩, proto⟩ 0 ⟨1, c.id, 0, (c.pack []).getD []⟩)
      ([] ++ [.send 0 ⟨typename, c.id, 1, 0, 1, []⟩]) := by
  have ok : (proto 0).send (resolveAddr inMainChunk (.handle 1)) typename [] =
      .ok (some ⟨1, c.id, 0, (c.pack []).getD []⟩) := by
    simp only [Protocols.send, found, resolveAddr]
  have step : Exchange.Step ⟨⟨inMainChunk, fun _ => {}⟩, proto⟩ _ _ := .send (.inr rfl) rfl ok
  exact (System.Run.init rfl).step ⟨step, quiet _ _⟩

/-- A type that is a float is rejected by `send_session`. -/
theorem not_delivered_float {x : ℚ} (found : (proto 0).named typename = some c)
    (number : c.id = some (.float x)) (quiet : ∀ σ sent, C σ (.send 0 sent)) :
    ∃ (σ : Exchange 1) (tr : List (Move 1)),
      (((exchange 1).restrict C).after ⟨⟨inMainChunk, fun _ => {}⟩, proto⟩).Run σ tr ∧
      (∀ name func, .dispatch 0 name func ∉ tr) ∧ σ.core.getService 1 = some 0 ∧
      ¬ Delivered ⟨⟨inMainChunk, fun _ => {}⟩, proto⟩ σ tr 0 1 typename (.float x) f := by
  have run := run_send found quiet
  rw [number] at run
  refine ⟨_, _, run, by simp, rfl, fun d => ?_⟩
  have lost := d.pushed 0
  simp [Move.sentBy, Move.pushedBy, Sent.requestTo, Exchange.sendSession, SendArgs.message] at lost

/-- The service receives the message that its main chunk has sent. -/
theorem run_received {S : System (Exchange 1) (Move 1)} {tr : List (Move 1)} {msg : BaseMsg}
    (steps : ∀ σ l σ', S.step σ l σ' ↔ Exchange.Step σ l σ' ∧ C σ l)
    (quiet : ∀ σ l, (∀ s sent, l ≠ .call s sent) → C σ l)
    (run : S.Run ⟨⟨inMainChunk.setCall 0 (.sendGet 1 msg), fun _ => {}⟩, proto⟩ tr) :
    ∃ (σ : Exchange 1) (later : List (Move 1)), S.Run σ (tr ++ later) ∧
      later.flatMap (Move.pushed 0) = [msg] ∧
      (∀ name, later.flatMap (Move.started 0 name) = Move.started 0 name (.onMsg (0 : Fin 1) 0 msg
        (Exchange.starts ⟨⟨inMainChunk, fun _ => {}⟩, proto⟩ 0 msg))) ∧
      (∀ toId name id, later.flatMap (Move.sentBy 0 toId name id) = []) ∧
      σ.core.pending 0 = [] ∧ (∀ name func, .dispatch 0 name func ∉ later) ∧
      σ.core.getService 1 = some 0 := by
  have quiet' : ∀ {e : Event 1} σ, C σ (.core e) := fun σ => quiet σ _ (by rintro _ _ ⟨⟩)
  have h1 := run_node steps run (.call (.sendFound (k := 0) (r := 0) rfl rfl)) quiet'
    (own_setCall rfl nofun)
  have h2 := run_node steps h1 (.call (.sendPush (k := 0) rfl rfl)) quiet' (own_setCall rfl nofun)
  have h3 := run_node steps h2 (.call (.sendEnter (k := 0) rfl)) quiet' (own_setCall rfl nofun)
  have h4 := run_node steps h3 (.wake (.wakeTest (k := 0) rfl)) quiet' (own_setCall rfl nofun)
  have h5 := run_node steps h4 (.service (.onInitReturn (r := 0) rfl)) quiet' fun _ => id
  have h6 := run_node steps h5 (.sleep (.take (w := 0) (r := 0) rfl rfl)) quiet' fun _ => id
  have h7 := run_node steps h6 (.turn (.readLength (w := 0) rfl rfl)) quiet' fun _ => id
  have h8 := run_node steps h7 (.turn (.processPop (w := 0) (i := 0) rfl rfl rfl)) quiet' fun _ => id
  have h9 := h8.step ((steps _ _ _).mpr ⟨.onMsg (.onMsg (w := 0) (r := 0) rfl rfl rfl),
    quiet _ _ (by rintro _ _ ⟨⟩)⟩)
  simp only [List.append_assoc] at h9
  exact ⟨_, _, h9, rfl, fun _ => List.append_nil _, fun _ _ _ => rfl, rfl, by simp, rfl⟩

/-- A message with a type that `OnMsg` does not know starts no callback. -/
theorem not_delivered_integer {i : Int64} (found : (proto 0).named typename = some c)
    (number : c.id = some (.integer i)) (quiet : ∀ σ l, (∀ s sent, l ≠ .call s sent) → C σ l)
    (range : 0 ≤ (LuaNumber.integer i).value ∧ (LuaNumber.integer i).value ≤ 255)
    (ignored : ∀ text, onMsg (Producer.luaSendSession (some 1) i 0 text) = .ignored) :
    ∃ (σ : Exchange 1) (tr : List (Move 1)),
      (((exchange 1).restrict C).after ⟨⟨inMainChunk, fun _ => {}⟩, proto⟩).Run σ tr ∧
      (∀ name func, .dispatch 0 name func ∉ tr) ∧ σ.core.getService 1 = some 0 ∧
      ¬ Delivered ⟨⟨inMainChunk, fun _ => {}⟩, proto⟩ σ tr 0 1 typename (.integer i) f := by
  have run := run_send found fun σ sent => quiet σ _ (by rintro _ _ ⟨⟩)
  rw [number] at run
  have sent : (((exchange 1).restrict C).after ⟨⟨inMainChunk, fun _ => {}⟩, proto⟩).Run
      ⟨⟨inMainChunk.setCall 0 (.sendGet 1 (Producer.luaSendSession (some 1) i 0
        ((c.pack []).getD []))), fun _ => {}⟩, proto⟩ _ := run
  obtain ⟨σ, later, run, pushed, started, -, pending, keeps, listed⟩ :=
    run_received (fun _ _ _ => Iff.rfl) quiet sent
  rw [starts_ignored (ignored _)] at started
  refine ⟨σ, _, run, by simpa using keeps, listed, fun d => ?_⟩
  have lost := d.started
  have none : inMainChunk.pending 0 = [] := rfl
  have request : requestOf (.integer i) (Producer.luaSendSession (some 1) i 0
      ((c.pack []).getD [])) = some ⟨0, 1, (c.pack []).getD []⟩ := if_pos (integer_type range)
  simp [pushed, started, pending, none, Move.pushed, Move.started, request] at lost

end

/-- A class that a service registers itself has an id in the range of a type. -/
theorem Registered.user (registered : Registered c) {id : LuaNumber} (number : c.id = some id)
    (socket : id.value ≠ MsgType.socket.toNat) (other : id ≠ ptypeLua) :
    (∃ p p', loaded = .ok p ∧ p.registerProtocol c = .ok p') ∧ 0 ≤ id.value ∧ id.value ≤ 255 := by
  have user : c ∉ builtins := by
    intro mem
    simp only [builtins, List.mem_cons, List.not_mem_nil, or_false] at mem
    rcases mem with rfl | rfl | rfl | rfl | rfl | rfl | rfl | rfl
    · exact other (Option.some.inj number).symm
    · cases number
      exact socket rfl
    all_goals cases number
  have registered := registered.resolve_left user
  refine ⟨registered, ?_⟩
  obtain ⟨p, p', -, registers⟩ := registered
  obtain ⟨-, -, -, ⟨none, -⟩ | ⟨id', some', range, -⟩⟩ := Protocols.registerProtocol_ok registers
  · rw [none] at number
    cases number
  · cases some'.symm.trans number
    exact range

/-- A protocol with another id than that of "lua" is not delivered. -/
theorem not_delivers (registered : Registered c) {id : LuaNumber} (number : c.id = some id)
    (response : id.value ≠ MsgType.response.toNat) (socket : id.value ≠ MsgType.socket.toNat)
    (other : id ≠ ptypeLua) : ¬ Delivers c id := by
  intro delivers
  obtain ⟨⟨p, p', ok, registers⟩, range⟩ := registered.user number socket other
  obtain ⟨p'', sets, found⟩ :=
    Protocols.exists_dispatch (Protocols.named_registerProtocol registers) (some 0)
  obtain ⟨before, run⟩ := run_loaded ok
  have run := (run.step (.register (r := 0) (.inr rfl) rfl registers)).step
    (.dispatch (r := 0) (.inr rfl) rfl sets)
  have served : ((Function.update (Function.update (fun _ => p) 0 p') 0 p'' : ServiceRef → Protocols)
      0).named c.name = some { c with dispatch := some 0 } := found
  have quiet : ∀ (σ : Exchange 1) (l : Move 1), (∀ s sent, l ≠ .call s sent) →
      ShortSession c.name σ l := fun σ l none s sent eq => absurd eq (none s sent)
  cases id with
  | float x =>
    obtain ⟨σ, tr, later, keeps, listed, lost⟩ := not_delivered_float (f := 0) served number
      fun σ sent => quiet σ _ (by rintro _ _ ⟨⟩)
    exact lost (delivers 1 _ σ _ tr 0 1 0 run later found (keeps c.name) rfl listed)
  | integer i =>
    have ne : ∀ {type : UInt8}, i.toInt ≠ (type.toNat : Int) → ∀ text,
        (Producer.luaSendSession (some 1) i 0 text).type ≠ type := by
      intro type ne text eq
      refine ne ?_
      rw [← toNat_type range, ← eq]
      rfl
    obtain ⟨σ, tr, later, keeps, listed, lost⟩ := not_delivered_integer (f := 0) served
      number quiet range fun text => by
        refine onMsg_ignored (ne (fun eq => ?_) text) (ne (fun eq => ?_) text) (ne (fun eq => ?_) text)
        · exact other (congrArg LuaNumber.integer (Int64.toInt_inj.mp eq))
        · exact response (congrArg Int.cast eq)
        · exact socket (congrArg Int.cast eq)
    exact lost (delivers 1 _ σ _ tr 0 1 0 run later found (keeps c.name) rfl listed)

/-- What services send to each other by a protocol is delivered exactly when its id is that of
"lua". -/
theorem delivers_iff (registered : Registered c) {id : LuaNumber} (number : c.id = some id)
    (response : id.value ≠ MsgType.response.toNat) (socket : id.value ≠ MsgType.socket.toNat) :
    Delivers c id ↔ id = ptypeLua := by
  constructor
  · intro delivers
    by_contra other
    exact not_delivers registered number response socket other delivers
  · rintro rfl n σ₀ σ before tr r toId f run later found keeps old listed
    have l := (Exchange.Sound.run run).proto r
    obtain ⟨name, func, eq⟩ := l.eq_luaClass found number rfl
    have callback : some f = func := congrArg ProtocolClass.dispatch eq
    rw [eq, ← callback, name] at found
    rw [name] at later keeps ⊢
    exact Exchange.delivered_lua run later found keeps old listed

/-- A service sends a message to itself by "lua", and its callback is started. -/
theorem delivers_iff_lua : ∃ (σ₀ σ : Exchange 1) (before tr : List (Move 1)),
    (exchange 1).Run σ₀ before ∧ (((exchange 1).restrict (ShortSession "lua")).after σ₀).Run σ tr ∧
    tr.flatMap (Move.sentBy 0 1 "lua" ptypeLua) = [⟨0, 1, []⟩] ∧
    tr.flatMap (Move.started 0 "lua") = [⟨"lua", 0, 0, 1, []⟩] ∧
    Delivered σ₀ σ tr 0 1 "lua" ptypeLua 0 := by
  obtain ⟨p, ok⟩ := exists_loaded
  have l := Protocols.Loaded.of_loaded ok
  obtain ⟨func, named⟩ := l.named_lua
  obtain ⟨p', sets, found⟩ := Protocols.exists_dispatch named (some 0)
  obtain ⟨before, run⟩ := run_loaded ok
  have run := run.step (.dispatch (r := 0) (.inr rfl) rfl sets)
  have quiet : ∀ (σ : Exchange 1) (l : Move 1), (∀ s sent, l ≠ .call s sent) →
      ShortSession "lua" σ l := fun σ l none s sent eq => absurd eq (none s sent)
  have served : ((Function.update (fun _ => p) 0 p' : ServiceRef → Protocols) 0).named "lua" =
      some (luaClass (some 0)) := found
  have sends := run_send (C := ShortSession "lua") served fun σ sent => quiet σ _ (by rintro _ _ ⟨⟩)
  have sent : (((exchange 1).restrict (ShortSession "lua")).after
      ⟨⟨inMainChunk, fun _ => {}⟩, Function.update (fun _ => p) 0 p'⟩).Run
      ⟨⟨inMainChunk.setCall 0 (.sendGet 1 (Producer.luaSendSession (some 1) 10 0 [])), fun _ => {}⟩,
        Function.update (fun _ => p) 0 p'⟩ _ := sends
  obtain ⟨σ, later, received, pushed, started, silent, pending, keeps, listed⟩ :=
    run_received (fun _ _ _ => Iff.rfl) quiet sent
  have start := Exchange.starts_eq (r := 0) (σ := ⟨⟨inMainChunk, fun _ => {}⟩,
    Function.update (fun _ => p) 0 p'⟩) .empty (l.dispatch sets) found
    (Producer.luaSendSession (some 1) 10 0 [])
  rw [start, requestOf_lua rfl rfl] at started
  refine ⟨_, σ, _, _, run, received, ?_, ?_, ?_⟩
  · simp [silent, Move.sentBy, Sent.requestTo, luaClass, stringClass]
  · rw [List.flatMap_append, started]
    rfl
  · exact (delivers_iff (c := luaClass none) (.inl (List.mem_cons_self ..)) rfl (by decide)
      (by decide)).mpr rfl 1 _ σ _ _ 0 1 0 run received found
      (fun func => by simpa [luaClass, stringClass] using keeps "lua" func) rfl listed

/-- Messages of a protocol with the id `PTYPE_SNAX` start no callback. -/
theorem not_delivers_snax : ¬ ∀ (c : ProtocolClass) (id : LuaNumber), Registered c →
    c.id = some id → id.value ≠ MsgType.response.toNat → id.value ≠ MsgType.error.toNat →
    id.value ≠ MsgType.socket.toNat → Delivers c id := by
  intro claim
  have registered : Registered (stringClass "snax" (some (.integer 11))) := .inr ⟨_, _, rfl, rfl⟩
  exact not_delivers registered rfl (by decide) (by decide) (by decide)
    (claim _ _ registered rfl (by decide) (by decide) (by decide))

end Starnet.Host
