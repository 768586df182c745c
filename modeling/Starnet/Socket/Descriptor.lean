import Starnet.Lib.Transition
import Starnet.Socket.Server

/-! The socket thread and the services in steps as small as their locks. A descriptor number is the
only name of a connection, so the model numbers the connections as well: `seq` of a message that is
sent is the number of the connection it is meant for, and `delivered` says which connection got a
byte. -/

namespace Starnet

namespace Descriptor

open Transition

/-- A `SocketMsg` in the queue of a service, with the connection that an `ACCEPT` or a `CLOSE` is
about. -/
inductive Note
  | accept (fd : Int32) (c : Nat)
  | data (fd : Int32)
  | warning (fd : Int32)
  | close (fd : Int32) (c : Nat)
  deriving DecidableEq, Repr

/-- Where a call of `SendBuffer` is: `GetConn` has found the connection, or the write buffer is
locked. -/
inductive SendStage
  | found
  | locked
  deriving DecidableEq, Repr

/-- A call of `SendBuffer`, with the message and the connection's `serviceId`. -/
structure SendCall (S : Type) where
  stage : SendStage
  fd : Int32
  msg : Submission
  serviceId : S

/-- A service: its queue, the connections that it has seen an `ACCEPT` but no `CLOSE` of, by their
descriptors, and the call that it is in. -/
structure Service (S : Type) where
  inbox : List Note := []
  view : Int32 → Option Nat := fun _ => none
  call : Option (SendCall S) := none

/-- Where the socket thread is: in `OnAccept` after `accept` and after `AddConn`; in `NotifyClose`
after the post, in `RemoveConn` after `conns.erase`, and after `writeBuffers.erase`. -/
inductive Thread (S : Type)
  | idle
  | accepted (fd : Int32) (c : Nat) (svc : S)
  | added (fd : Int32) (c : Nat) (svc : S)
  | posted (fd : Int32) (c : Nat)
  | connErased (fd : Int32) (c : Nat)
  | bufferErased (fd : Int32) (c : Nat)

/-- A byte that the kernel accepted: the connection it is meant for, and the one that got it. -/
structure Delivery where
  meant : Nat
  byte : UInt8
  got : Nat
  deriving DecidableEq, Repr

/-- `sockets` are the open descriptors, `conns` has the `serviceId` of a connection, and `lock` is
the service that holds `writeBuffersLock` between two steps. -/
structure State (S : Type) where
  sockets : Int32 → Option Nat
  conns : Int32 → Option (Nat × S)
  writeBuffers : Int32 → Option ConnWriteBuffer
  lock : Option S
  thread : Thread S
  services : S → Service S
  next : Nat
  delivered : List Delivery

variable {S : Type} [DecidableEq S]

namespace State

def initial : State S :=
  ⟨fun _ => none, fun _ => none, fun _ => none, none, .idle, fun _ => {}, 0, []⟩

def setService (s : State S) (k : S) (svc : Service S) : State S :=
  { s with services := Function.update s.services k svc }

def setCall (s : State S) (k : S) (call : Option (SendCall S)) : State S :=
  s.setService k { s.services k with call }

/-- `OnSocketMsg` of the listener. -/
def post (s : State S) (k : S) (note : Note) : State S :=
  s.setService k { s.services k with inbox := (s.services k).inbox ++ [note] }

def setBuffer (s : State S) (fd : Int32) (wb : Option ConnWriteBuffer) : State S :=
  { s with writeBuffers := Function.update s.writeBuffers fd wb }

/-- The answers of the kernel to `write`: on a closed descriptor it fails with `EBADF`. -/
def answers (s : State S) (fd : Int32) (writes : List WriteOutcome) : List WriteOutcome :=
  match s.sockets fd with
  | some _ => writes
  | none => [.error]

/-- The bytes that calls of `write` on a descriptor hand over. -/
def deliver (s : State S) (fd : Int32) (calls : List WriteCall) : State S :=
  match s.sockets fd with
  | some got =>
    { s with delivered := s.delivered ++ (wire calls).map fun b => ⟨b.1, b.2, got⟩ }
  | none => s

/-- `SendBuffer` from `writeBuffersLock` to the end, for the write buffer that it has found. -/
def sendBuffer (s : State S) (k : S) (call : SendCall S) (wb : ConnWriteBuffer)
    (writes : List WriteOutcome) : State S :=
  let (wb, _, io) := wb.send call.msg ⟨s.answers call.fd writes, []⟩
  let (wb, warnKb) := wb.warn
  let s := (s.setBuffer call.fd (some wb)).deliver call.fd io.calls
  let s := { s.setCall k none with lock := none }
  if warnKb.isSome then s.post call.serviceId (.warning call.fd) else s

end State

/-- What a service knows after a message. -/
def Service.receive (svc : Service S) (note : Note) : Int32 → Option Nat :=
  match note with
  | .accept fd c => Function.update svc.view fd (some c)
  | .close fd _ => Function.update svc.view fd none
  | _ => svc.view

/-- The steps of the socket thread, and of the services. -/
inductive Op (S : Type)
  | accept (k : S) (fd : Int32)
  | addConn
  | postAccept
  | data (fd : Int32)
  | notifyClose (fd : Int32)
  | eraseConn
  | eraseBuffer
  | closeFd
  | writable (fd : Int32) (writes : List WriteOutcome)
  | receive (k : S)
  | write (k : S) (fd : Int32) (low : Bool) (buff : List UInt8)
  | fetch (k : S)
  | send (k : S) (writes : List WriteOutcome)

open State

inductive Step : State S → Op S → State S → Prop
  /-- `accept` on a listening socket of service `k`. -/
  | accept {s : State S} {k fd} (idle : s.thread = .idle) (free : s.sockets fd = none) :
      Step s (.accept k fd)
        { s with
          sockets := Function.update s.sockets fd (some s.next)
          thread := .accepted fd s.next k
          next := s.next + 1 }
  | addConn {s : State S} {fd c k} (here : s.thread = .accepted fd c k) :
      Step s .addConn
        { s with
          conns := if (s.conns fd).isSome then s.conns else Function.update s.conns fd (some (c, k))
          thread := .added fd c k }
  | postAccept {s : State S} {fd c k} (here : s.thread = .added fd c k) :
      Step s .postAccept { s.post k (.accept fd c) with thread := .idle }
  /-- `ReadData` posts a chunk. -/
  | data {s : State S} {fd c k} (idle : s.thread = .idle) (managed : s.conns fd = some (c, k)) :
      Step s (.data fd) (s.post k (.data fd))
  | notifyClose {s : State S} {fd c k} (idle : s.thread = .idle)
      (managed : s.conns fd = some (c, k)) :
      Step s (.notifyClose fd) { s.post k (.close fd c) with thread := .posted fd c }
  | eraseConn {s : State S} {fd c} (here : s.thread = .posted fd c) :
      Step s .eraseConn
        { s with conns := Function.update s.conns fd none, thread := .connErased fd c }
  | eraseBuffer {s : State S} {fd c} (here : s.thread = .connErased fd c) (unlocked : s.lock = none) :
      Step s .eraseBuffer { s.setBuffer fd none with thread := .bufferErased fd c }
  | closeFd {s : State S} {fd c} (here : s.thread = .bufferErased fd c) :
      Step s .closeFd
        { s with sockets := Function.update s.sockets fd none, thread := .idle }
  /-- `OnWriteable`. -/
  | writable {s : State S} {fd c k wb writes} (idle : s.thread = .idle) (unlocked : s.lock = none)
      (managed : s.conns fd = some (c, k)) (buffer : s.writeBuffers fd = some wb) :
      Step s (.writable fd writes)
        ((s.setBuffer fd (some (wb.flush ⟨s.answers fd writes, []⟩).1)).deliver fd
          (wb.flush ⟨s.answers fd writes, []⟩).2.calls)
  /-- A service handles the first message of its queue. -/
  | receive {s : State S} {k note rest} (free : (s.services k).call = none)
      (queued : (s.services k).inbox = note :: rest) :
      Step s (.receive k)
        (s.setService k { s.services k with inbox := rest, view := (s.services k).receive note })
  /-- `socket.write` on a connection that the service knows, up to `GetConn`. -/
  | write {s : State S} {k fd low buff c conn} (free : (s.services k).call = none)
      (known : (s.services k).view fd = some c) (managed : s.conns fd = some conn) :
      Step s (.write k fd low buff)
        (s.setCall k (some ⟨.found, fd, ⟨c, low, buff⟩, conn.2⟩))
  /-- `writeBuffers[fd]` under the lock. -/
  | fetch {s : State S} {k call} (called : (s.services k).call = some call)
      (stage : call.stage = .found) (unlocked : s.lock = none) :
      Step s (.fetch k)
        { (s.setBuffer call.fd (some ((s.writeBuffers call.fd).getD {}))).setCall k
            (some { call with stage := .locked }) with lock := some k }
  | send {s : State S} {k call wb writes} (called : (s.services k).call = some call)
      (stage : call.stage = .locked) (buffer : s.writeBuffers call.fd = some wb)
      (open_ : wb.isClosing = false) :
      Step s (.send k writes) (s.sendBuffer k call wb writes)

/-- The socket thread and the services in any order. -/
def engine : System (State S) (Op S) where
  init s := s = .initial
  step := Step

/-- `accept` gives no descriptor that a service has a `CLOSE` of to handle or a `SendBuffer` under
way on, or that bytes are left for. -/
def FreshDescriptor (s : State S) : Op S → Prop
  | .accept _ fd =>
    (∀ k c, .close fd c ∉ (s.services k).inbox) ∧
      (∀ k call, (s.services k).call = some call → call.fd ≠ fd) ∧
      ∀ wb, s.writeBuffers fd = some wb → wb.hasData = false
  | _ => True

end Descriptor

/-! ### What a write buffer holds -/

namespace ConnWriteBuffer

variable {P : Submission → Prop} {wb : ConnWriteBuffer}

/-- Every message that is queued satisfies `P`. -/
def Holds (P : Submission → Prop) (wb : ConnWriteBuffer) : Prop :=
  ∀ obj ∈ wb.objs ++ wb.low, P obj.msg

theorem holds_of_hasData (empty : wb.hasData = false) : wb.Holds P := by
  intro obj mem
  obtain ⟨objs, low⟩ : wb.objs = [] ∧ wb.low = [] := by simpa [hasData] using empty
  rw [objs, low] at mem
  cases mem

theorem Holds.warn (h : wb.Holds P) : wb.warn.1.Holds P := by
  unfold ConnWriteBuffer.warn
  split
  · exact h
  · exact h

end ConnWriteBuffer

theorem mem_wire {P : Submission → Prop} {calls : List WriteCall} (h : ∀ call ∈ calls, P call.msg) :
    ∀ b ∈ wire calls, ∃ msg, P msg ∧ msg.seq = b.1 := by
  intro b mem
  obtain ⟨call, called, mem⟩ := List.mem_flatMap.mp mem
  obtain ⟨byte, -, rfl⟩ := List.mem_map.mp mem
  exact ⟨call.msg, h call called, rfl⟩

theorem writeAll_holds {P : Submission → Prop}
    {queues : List WriteObject → List WriteObject × List WriteObject} {lst lst' : List WriteObject}
    {written written' : Nat} {io io' : WriteIo}
    (eq : writeAll queues lst written io = (lst', written', io')) (held : ∀ obj ∈ lst, P obj.msg)
    (called : ∀ call ∈ io.calls, P call.msg) :
    (∀ obj ∈ lst', P obj.msg) ∧ ∀ call ∈ io'.calls, P call.msg := by
  induction lst generalizing written io with
  | nil =>
    rw [writeAll] at eq
    cases eq
    exact ⟨fun _ mem => absurd mem List.not_mem_nil, called⟩
  | cons obj others ih =>
    have next : ∀ k, ∀ call ∈ io.calls ++ [writeCall obj.msg obj.rest k (queues (obj :: others))],
        P call.msg := by
      intro k call mem
      rcases List.mem_append.mp mem with mem | mem
      · exact called call mem
      · rw [List.mem_singleton.mp mem]
        exact held obj (List.mem_cons_self ..)
    rcases writeAll_cons queues obj others written io with
      ⟨answers, full⟩ | ⟨front, k, answers, msg, -, -, stop⟩
    · rw [full] at eq
      exact ih eq (fun obj mem => held obj (List.mem_cons_of_mem _ mem)) (next _)
    · rw [stop] at eq
      cases eq
      refine ⟨fun obj' mem => ?_, next k⟩
      rcases List.mem_cons.mp mem with rfl | mem
      · rw [msg]
        exact held obj (List.mem_cons_self ..)
      · exact held obj' (List.mem_cons_of_mem _ mem)

namespace ConnWriteBuffer

variable {P : Submission → Prop} {wb : ConnWriteBuffer} {io : WriteIo}

/-- A flush writes and leaves messages that were queued. -/
theorem Holds.flush (h : wb.Holds P) (called : ∀ call ∈ io.calls, P call.msg) :
    (wb.flush io).1.Holds P ∧ ∀ call ∈ (wb.flush io).2.calls, P call.msg := by
  have high : ∀ obj ∈ wb.objs, P obj.msg := fun obj mem => h obj (List.mem_append_left _ mem)
  have low : ∀ obj ∈ wb.low, P obj.msg := fun obj mem => h obj (List.mem_append_right _ mem)
  obtain ⟨objs, written, io₁, first, cases⟩ := wb.flush_cases io
  obtain ⟨objsHeld, called₁⟩ := writeAll_holds first high called
  rcases cases with ⟨-, eq⟩ | ⟨-, low', written', io₂, second, eq⟩
  · rw [eq]
    refine ⟨fun obj mem => ?_, called₁⟩
    rcases List.mem_append.mp mem with mem | mem
    · exact objsHeld obj mem
    · exact low obj mem
  · obtain ⟨lowHeld, called₂⟩ := writeAll_holds second low called₁
    rw [eq]
    refine ⟨fun obj mem => ?_, called₂⟩
    rcases List.mem_append.mp mem with mem | mem
    · exact lowHeld obj (List.mem_of_mem_take mem)
    · exact lowHeld obj (List.mem_of_mem_tail mem)

theorem Holds.send (h : wb.Holds P) {msg : Submission} (new : P msg)
    (called : ∀ call ∈ io.calls, P call.msg) :
    (wb.send msg io).1.Holds P ∧ ∀ call ∈ (wb.send msg io).2.2.calls, P call.msg := by
  have queue : ∀ obj : WriteObject, obj.msg = msg →
      ∀ obj' ∈ wb.objs ++ wb.low ++ [obj], P obj'.msg := by
    intro obj same obj' mem
    rcases List.mem_append.mp mem with mem | mem
    · exact h obj' mem
    · rw [List.mem_singleton.mp mem, same]
      exact new
  unfold ConnWriteBuffer.send
  split
  · obtain ⟨k, io', calls, cases⟩ := wb.entireWriteWhenEmpty_cases msg io
    have called' : ∀ call ∈ io'.calls, P call.msg := by
      intro call mem
      rw [calls] at mem
      rcases List.mem_append.mp mem with mem | mem
      · exact called call mem
      · rw [List.mem_singleton.mp mem]
        exact new
    rcases cases with ⟨-, eq⟩ | ⟨obj, same, -, -, eq⟩
    · rw [eq]
      exact ⟨h, called'⟩
    · rw [eq]
      refine ⟨fun obj' mem => queue obj same obj' ?_, called'⟩
      simp only [List.mem_append] at mem ⊢
      tauto
  · refine ⟨fun obj' mem => queue (WriteObject.whole msg) rfl obj' ?_, called⟩
    unfold entireWriteWhenNotEmpty at mem
    split at mem
    · simp only [List.mem_append] at mem ⊢
      tauto
    · simp only [List.mem_append] at mem ⊢
      tauto

end ConnWriteBuffer

end Starnet
