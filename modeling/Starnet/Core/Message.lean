import Mathlib.Data.List.Basic

/-! The messages that services, the timer and the socket engine put in service queues
(`starnet_msg.h`), and what the exit path of a service answers for a message it drops
(`dropMessage` in `starnet_worker.cpp`). -/

namespace Starnet

/-! ### `BaseMsg::TYPE` -/

namespace MsgType

def text : UInt8 := 0
def response : UInt8 := 1
def multicast : UInt8 := 2
def client : UInt8 := 3
def system : UInt8 := 4
def harbor : UInt8 := 5
def socket : UInt8 := 6
def error : UInt8 := 7
def reservedQueue : UInt8 := 8
def reservedDebug : UInt8 := 9
def lua : UInt8 := 10
def reservedSnax : UInt8 := 11

end MsgType

/-- `SocketMsg::SUBTYPE`. -/
inductive SocketSubtype
  | data
  | connect
  | close
  | accept
  | error
  | udp
  | warning
  deriving DecidableEq, Repr

/-- The fields that `ServiceMsg` adds to `BaseMsg`. -/
structure ServiceMsg where
  source : UInt32
  session : Int32
  buff : List UInt8
  deriving DecidableEq, Repr

/-- The fields that `SocketMsg` adds to `BaseMsg`. -/
structure SocketMsg where
  subtype : SocketSubtype
  fd : Int32
  listenFd : Int32
  size : Int32
  buff : List UInt8
  udpAddr : List UInt8
  deriving DecidableEq, Repr

/-- The derived class of a message object. -/
inductive MsgBody
  | service (msg : ServiceMsg)
  | socket (msg : SocketMsg)
  deriving DecidableEq, Repr

/-- A message object: the `type` field and the class are independent data of it. -/
structure BaseMsg where
  type : UInt8
  body : MsgBody
  deriving DecidableEq, Repr

/-- An empty request, as `starnet.send` builds it from a client that is no service. -/
def request (session : Int32) : BaseMsg :=
  ⟨MsgType.lua, .service { source := 0, session, buff := [] }⟩

/-- The `ERROR` message that `dropMessage` builds for a request with session `session`. -/
def errorMsg (session : Int32) : BaseMsg :=
  ⟨MsgType.error, .service { source := 0, session, buff := [] }⟩

/-- `dropMessage`: the destination and the message of its `Starnet::Send`, if it sends one. The
`static_pointer_cast` of an object of another class has no defined meaning; nothing is sent. -/
def dropMessage (msg : BaseMsg) : Option (UInt32 × BaseMsg) :=
  if msg.type = MsgType.socket then none
  else
    match msg.body with
    | .service sm => if sm.source = 0 then none else some (sm.source, errorMsg sm.session)
    | .socket _ => none

/-- Only a service message with a source is answered, at that source and with its session. -/
theorem dropMessage_eq_some {msg err : BaseMsg} {toId : UInt32}
    (h : dropMessage msg = some (toId, err)) :
    ∃ sm, msg.body = .service sm ∧ sm.source = toId ∧ toId ≠ 0 ∧ err = errorMsg sm.session := by
  unfold dropMessage at h
  split at h
  · contradiction
  · split at h
    · rename_i sm body
      split at h
      · contradiction
      · rename_i source
        obtain ⟨rfl, rfl⟩ := Prod.mk.inj (Option.some.inj h)
        exact ⟨sm, body, rfl, source, rfl⟩
    · contradiction

end Starnet
