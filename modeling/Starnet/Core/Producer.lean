import Starnet.Core.Delivery

/-! The producers of messages and what `OnMsg` and `dropMessage` make of a message. The `type`
field of a message and its class agree, except when `send_session` is given a type whose low byte
is the socket type: the message is a `ServiceMsg` that `OnMsg` casts to a `SocketMsg`. -/

namespace Starnet

/-- The calls that put a message in a service queue. -/
inductive Producer
  | send (source : Int64) (text : List UInt8)
  | sendSession (srv : Option UInt32) (type session : Int64) (text : List UInt8)
  | timer (session : Int32)
  | dropMessage (session : Int32)
  | socket (msg : SocketMsg)

namespace Producer

/-- `LuaAPI::Send`; the session is zero from the construction of the message. -/
def luaSend (source : Int64) (text : List UInt8) : BaseMsg :=
  ⟨MsgType.lua, .service { source := source.toInt32.toUInt32, session := 0, buff := text }⟩

/-- `LuaAPI::SendSession` of service `srv`. The integers from Lua pass through `int`, and the type
is stored in a `uint8_t`. -/
def luaSendSession (srv : Option UInt32) (type session : Int64) (text : List UInt8) : BaseMsg :=
  ⟨type.toInt32.toUInt32.toUInt8,
    .service { source := srv.getD 0, session := session.toInt32, buff := text }⟩

/-- The message of `starnet_timeout` and of `dispatch_list`. -/
def timerMsg (session : Int32) : BaseMsg :=
  ⟨MsgType.response, .service { source := 0, session, buff := [] }⟩

def message : Producer → BaseMsg
  | send source text => luaSend source text
  | sendSession srv type session text => luaSendSession srv type session text
  | timer session => timerMsg session
  | dropMessage session => errorMsg session
  | socket msg => ⟨MsgType.socket, .socket msg⟩

/-- A type argument is not the socket type modulo 256. -/
def AvoidsSocketType : Producer → Prop
  | sendSession _ type _ _ => type.toInt % 256 ≠ 6
  | _ => True

end Producer

namespace BaseMsg

/-- The type is `SOCKET` exactly when the object is a `SocketMsg`. -/
def Agrees (msg : BaseMsg) : Prop := msg.type = MsgType.socket ↔ ∃ sm, msg.body = .socket sm

/-- `dynamic_pointer_cast<ServiceMsg>`. -/
def asServiceMsg (msg : BaseMsg) : Option ServiceMsg :=
  match msg.body with
  | .service sm => some sm
  | .socket _ => none

/-- `dynamic_pointer_cast<SocketMsg>`. -/
def asSocketMsg (msg : BaseMsg) : Option SocketMsg :=
  match msg.body with
  | .service _ => none
  | .socket sm => some sm

end BaseMsg

/-- What `OnMsg` calls; the pointers may be null. -/
inductive OnMsgCall
  | onServiceMsg (type : UInt8) (msg : Option ServiceMsg)
  | onSocketMsg (msg : Option SocketMsg)
  | ignored
  deriving DecidableEq, Repr

/-- `Service::OnMsg`. -/
def onMsg (msg : BaseMsg) : OnMsgCall :=
  if msg.type = MsgType.lua ∨ msg.type = MsgType.response then .onServiceMsg msg.type msg.asServiceMsg
  else if msg.type = MsgType.socket then .onSocketMsg msg.asSocketMsg
  else .ignored

namespace BaseMsg

/-- `OnMsg` passes no null pointer, and the `static_pointer_cast` of `dropMessage`, where it is
reached, is of a `ServiceMsg`. -/
structure Safe (msg : BaseMsg) : Prop where
  agrees : msg.Agrees
  serviceMsg : ∀ type, onMsg msg ≠ .onServiceMsg type none
  socketMsg : onMsg msg ≠ .onSocketMsg none
  cast : msg.type ≠ MsgType.socket → ∃ sm, msg.body = .service sm

theorem Agrees.safe {msg : BaseMsg} (agrees : msg.Agrees) : msg.Safe := by
  obtain ⟨type, body⟩ := msg
  cases body with
  | service sm =>
    have type_ne : type ≠ MsgType.socket := by
      intro eq
      obtain ⟨_, other⟩ := agrees.mp eq
      cases other
    refine ⟨agrees, fun type' => ?_, ?_, fun _ => ⟨sm, rfl⟩⟩
    · simp only [onMsg, type_ne, asServiceMsg]
      split <;> simp
    · simp only [onMsg, type_ne, if_false]
      split <;> simp
  | socket sm =>
    obtain rfl : type = MsgType.socket := agrees.mpr ⟨sm, rfl⟩
    have call : onMsg ⟨MsgType.socket, .socket sm⟩ = .onSocketMsg (some sm) := rfl
    refine ⟨agrees, fun type' => ?_, ?_, fun ne => absurd rfl ne⟩
    · simp [call]
    · simp [call]

end BaseMsg

/-! ### What the producers build -/

theorem toNat_lowByte (type : Int64) :
    (type.toInt32.toUInt32.toUInt8.toNat : Int) = type.toInt % 256 := by
  have narrow : type.toInt32.toUInt32.toUInt8.toNat = type.toInt32.toBitVec.toNat % 256 := rfl
  have low : type.toInt32.toBitVec = type.toBitVec.setWidth 32 :=
    BitVec.signExtend_eq_setWidth_of_le type.toBitVec (by decide)
  have value : type.toInt = type.toBitVec.toInt := rfl
  have cases := BitVec.toInt_eq_toNat_cond type.toBitVec
  rw [narrow, low, BitVec.toNat_setWidth, value]
  split at cases <;> omega

/-- A producer's message agrees exactly when its type argument is not the socket type. -/
theorem Producer.agrees_iff (p : Producer) : p.message.Agrees ↔ p.AvoidsSocketType := by
  have other : ∀ (type : UInt8) (sm : ServiceMsg),
      BaseMsg.Agrees ⟨type, .service sm⟩ ↔ type ≠ MsgType.socket := by
    intro type sm
    constructor
    · rintro agrees rfl
      obtain ⟨_, body⟩ := agrees.mp rfl
      cases body
    · intro ne
      refine ⟨fun eq => absurd eq ne, ?_⟩
      rintro ⟨_, body⟩
      cases body
  cases p with
  | send source text => exact (other _ _).trans ⟨fun _ => trivial, fun _ => by decide⟩
  | sendSession srv type session text =>
    have low := toNat_lowByte type
    have socket : MsgType.socket.toNat = 6 := rfl
    refine (other _ _).trans (not_congr ?_)
    rw [← UInt8.toNat_inj, socket]
    omega
  | timer session | dropMessage session =>
    exact (other _ _).trans ⟨fun _ => trivial, fun _ => by decide⟩
  | socket msg => exact ⟨fun _ => trivial, fun _ => ⟨fun _ => ⟨msg, rfl⟩, fun _ => rfl⟩⟩

/-! ### Queues -/

namespace Core

open Transition

variable {n : Nat}

/-- A pushed message is built by a producer, whose type argument is not the socket type. -/
def PushesProduced : Event n → Prop
  | .push _ _ msg => ∃ p : Producer, p.AvoidsSocketType ∧ msg = p.message
  | _ => True

theorem safe_of_pushed {r : ServiceRef} {tr : List (Event n)} (produced : ∀ e ∈ tr, PushesProduced e)
    {msg : BaseMsg} (mem : msg ∈ pushed r tr) : msg.Safe := by
  obtain ⟨k, event⟩ := push_of_mem_pushed mem
  obtain ⟨p, avoids, rfl⟩ := produced _ event
  exact (p.agrees_iff.mpr avoids).safe

/-- A message that a producer builds agrees with its class exactly when the producer is not given
the socket type, and in a run in which no producer is given it, the casts of every queued,
processed or dropped message are valid. -/
theorem messageClass_of_avoidsSocketType (p : Producer) :
    (p.message.Agrees ↔ p.AvoidsSocketType) ∧
    ∀ (n : Nat) (σ : State n) (tr : List (Event n)),
      ((node n).restrict fun _ e => PushesProduced e).Run σ tr → ∀ r msg,
      msg ∈ (σ.srv r).mq.msgQueue ∨ msg ∈ processed r tr ∨ msg ∈ dropped r tr → msg.Safe := by
  refine ⟨p.agrees_iff, fun n σ tr run r msg mem => ?_⟩
  have balance := (Ledger.run run.of_restrict r).balance
  refine safe_of_pushed (r := r) run.labels ?_
  rw [← balance, List.mem_append, List.mem_append]
  tauto

/-- `starnet.send(1, "socket", "")` in service 7. -/
def sendSocket : Producer := .sendSession (some 7) 6 0 []

/-- The queue of a service that one message was pushed to. -/
theorem run_push (p : Producer) (C : Event 1 → Prop) (quiet : ∀ e, (∀ k r msg, e ≠ .push k r msg) → C e)
    (push : C (.push 0 0 p.message)) : ∃ (σ : State 1) (tr : List (Event 1)),
    ((node 1).restrict fun _ e => C e).Run σ tr ∧ p.message ∈ (σ.srv 0).mq.msgQueue := by
  have h0 : ((node 1).restrict fun _ e => C e).Run _ _ := .init rfl
  have h1 := h0.step ⟨.service (.newService _), quiet _ (by simp)⟩
  have h2 := h1.step ⟨.call (.send (k := 0) 1 p.message rfl), quiet _ (by simp)⟩
  have h3 := h2.step ⟨.call (.sendFound (k := 0) (r := 0) rfl rfl), quiet _ (by simp)⟩
  have h4 := h3.step ⟨.call (.sendPush (k := 0) rfl rfl), push⟩
  exact ⟨_, _, h4, List.mem_singleton.mpr rfl⟩

theorem messageClass_of_lua : ∃ (σ : State 1) (tr : List (Event 1)),
    ((node 1).restrict fun _ e => PushesProduced e).Run σ tr ∧
    ∃ msg ∈ (σ.srv 0).mq.msgQueue, msg.Safe := by
  obtain ⟨σ, tr, run, mem⟩ := run_push (.sendSession (some 7) 10 1 [65]) PushesProduced
    (fun e quiet => by cases e <;> first | trivial | exact absurd rfl (quiet _ _ _))
    ⟨.sendSession (some 7) 10 1 [65], show (10 : Int64).toInt % 256 ≠ 6 by decide, rfl⟩
  exact ⟨σ, tr, run, _, mem, (messageClass_of_avoidsSocketType (.timer 1)).2 1 σ tr run 0 _ (Or.inl mem)⟩

/-- A `ServiceMsg` of type `SOCKET` is queued, and `OnMsg` will pass a null pointer for it. -/
theorem not_messageClass_sendSocket :
    ¬((∀ p : Producer, p.message.Agrees) ∧ ∀ (n : Nat) (σ : State n) (tr : List (Event n)),
      ((node n).restrict fun _ e => ∀ k r msg, e = .push k r msg → ∃ p : Producer,
        msg = p.message).Run σ tr → ∀ r, ∀ msg ∈ (σ.srv r).mq.msgQueue, msg.Safe) ∧
    onMsg sendSocket.message = .onSocketMsg none := by
  refine ⟨fun claim => ?_, rfl⟩
  obtain ⟨σ, tr, run, mem⟩ := run_push sendSocket
    (fun e => ∀ k r msg, e = .push k r msg → ∃ p : Producer, msg = p.message)
    (fun e quiet k r msg eq => absurd eq (quiet k r msg))
    (by rintro k r msg ⟨⟩; exact ⟨_, rfl⟩)
  exact (claim.2 1 σ tr run 0 _ mem).socketMsg rfl

end Core

end Starnet
