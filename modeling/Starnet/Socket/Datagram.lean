import Starnet.Socket.Server
import Mathlib.Data.List.GetD

/-! Reading datagrams at an edge. The kernel reports the socket once for all that arrived, so
`ReadUdp` has to read until the queue is empty. It also stops at an empty datagram and when
`recvfrom` is interrupted. -/

namespace Starnet

/-! ### Addresses -/

/-- The parts of a socket address that are packed: the bytes of the port and of the IP address, in
network order. -/
inductive SockAddr
  | v4 (port : Fin 2 → UInt8) (addr : Fin 4 → UInt8)
  | v6 (port : Fin 2 → UInt8) (addr : Fin 16 → UInt8)

/-- `AF_INET`. -/
def afInet : UInt8 := 2

/-- `AF_INET6`. -/
def afInet6 : UInt8 := 10

/-- `PackUdpAddress`. -/
def packUdpAddress : SockAddr → List UInt8
  | .v4 port addr => afInet :: (List.ofFn port ++ List.ofFn addr)
  | .v6 port addr => afInet6 :: (List.ofFn port ++ List.ofFn addr)

/-- `n` bytes from `start` on. -/
def bytesAt (udpAddr : List UInt8) (start n : Nat) : Fin n → UInt8 :=
  fun i => udpAddr.getD (start + i) 0

/-- `UnpackUdpAddress`. -/
def unpackUdpAddress (udpAddr : List UInt8) : Option SockAddr :=
  if udpAddr.length < 3 then none
  else
    let family := udpAddr.getD 0 0
    if family = afInet then
      if udpAddr.length < 7 then none
      else some (.v4 (bytesAt udpAddr 1 2) (bytesAt udpAddr 3 4))
    else if family = afInet6 then
      if udpAddr.length < 19 then none
      else some (.v6 (bytesAt udpAddr 1 2) (bytesAt udpAddr 3 16))
    else none

theorem bytesAt_pack {n : Nat} (family : UInt8) (port : Fin 2 → UInt8) (addr : Fin n → UInt8) :
    bytesAt (family :: (List.ofFn port ++ List.ofFn addr)) 1 2 = port ∧
      bytesAt (family :: (List.ofFn port ++ List.ofFn addr)) 3 n = addr := by
  constructor
  · funext i
    have inside : i.val < (List.ofFn port).length := by rw [List.length_ofFn]; exact i.isLt
    rw [bytesAt, Nat.add_comm, List.getD_cons_succ, List.getD_append _ _ _ _ inside,
      List.getD_eq_getElem _ _ inside]
    exact List.getElem_ofFn ..
  · funext i
    have shift : 3 + i.val = i.val + 2 + 1 := by omega
    rw [bytesAt, shift, List.getD_cons_succ, List.getD_append_right _ _ _ _ (by simp)]
    simp

/-- The address of a `UDP` message names its sender. -/
theorem unpackUdpAddress_pack (sender : SockAddr) :
    unpackUdpAddress (packUdpAddress sender) = some sender := by
  cases sender with
  | v4 port addr =>
    obtain ⟨ports, addrs⟩ := bytesAt_pack afInet port addr
    rw [packUdpAddress, unpackUdpAddress, if_neg (by simp)]
    dsimp only
    rw [List.getD_cons_zero, if_pos rfl, if_neg (by simp), ports, addrs]
  | v6 port addr =>
    obtain ⟨ports, addrs⟩ := bytesAt_pack afInet6 port addr
    rw [packUdpAddress, unpackUdpAddress, if_neg (by simp)]
    dsimp only
    rw [List.getD_cons_zero, if_neg (by decide), if_pos rfl, if_neg (by simp), ports, addrs]

/-! ### The kernel -/

/-- A datagram in the receive queue; the length of its payload fits the header of UDP. -/
structure Datagram where
  payload : List UInt8
  sender : SockAddr
  bound : payload.length + 8 < 65536

/-- `recvfrom`: the answer and the receive queue after the call. -/
def recvfrom (queue : List Datagram) (interrupted : Bool) : RecvOutcome × List Datagram :=
  if interrupted then (.eintr, queue)
  else
    match queue with
    | [] => (.eagain, [])
    | d :: queue => (.datagram d.payload (packUdpAddress d.sender), queue)

/-- The answers to the first `n` calls and the queue after them; `interrupted i` tells of call `i`
whether a signal interrupts it. -/
def recvs (interrupted : Nat → Bool) : Nat → List Datagram → List RecvOutcome × List Datagram
  | 0, queue => ([], queue)
  | n + 1, queue =>
    let (outcome, queue) := recvfrom queue (interrupted 0)
    let (outcomes, queue) := recvs (fun i => interrupted (i + 1)) n queue
    (outcome :: outcomes, queue)

/-- The number of calls that the loop of `ReadUdp` makes. -/
def udpCalls : List RecvOutcome → Nat
  | .datagram payload _ :: outcomes =>
    if (payload.take SocketServer.maxUdp).length > 0 then udpCalls outcomes + 1 else 1
  | _ => 1

/-- The engine and the receive queue after `ReadUdp`. The loop makes at most one call more than there
are datagrams. -/
def receiveUdp (s : SocketServer) (fd : Int32) (serviceId : UInt32) (interrupted : Nat → Bool)
    (queue : List Datagram) : SocketServer × List Datagram :=
  let outcomes := (recvs interrupted (queue.length + 1) queue).1
  (s.readUdp fd serviceId outcomes, (recvs interrupted (udpCalls outcomes) queue).2)

/-- The message for a datagram, with its service. -/
def udpMsg (fd : Int32) (serviceId : UInt32) (d : Datagram) : SocketMsg × UInt32 :=
  ({ SocketServer.socketMsg .udp fd with
      buff := d.payload
      udpAddr := packUdpAddress d.sender }, serviceId)

/-- The receive queue is empty, and each datagram that is not empty has been posted once, in order,
with its payload and an address that names its sender. -/
structure DrainsUdp (s : SocketServer) (fd : Int32) (serviceId : UInt32) (queue : List Datagram)
    (s' : SocketServer) (left : List Datagram) : Prop where
  empty : left = []
  posted : s'.posted =
    s.posted ++ (queue.filter fun d => d.payload ≠ []).map (udpMsg fd serviceId)
  senders : ∀ d ∈ queue, unpackUdpAddress (udpMsg fd serviceId d).1.udpAddr = some d.sender

/-- `MAX_UDP` is enough for every payload. -/
theorem Datagram.take_payload (d : Datagram) :
    d.payload.take SocketServer.maxUdp = d.payload := by
  have bound := d.bound
  exact List.take_of_length_le (by rw [SocketServer.maxUdp]; omega)

section

variable (s : SocketServer) (fd : Int32) (serviceId : UInt32) (interrupted : Nat → Bool)
  (d : Datagram) (queue : List Datagram)

theorem receiveUdp_nil : receiveUdp s fd serviceId interrupted [] = (s, []) := by
  cases first : interrupted 0 <;>
    simp [receiveUdp, recvs, recvfrom, first, SocketServer.readUdp, udpCalls]

/-- One call of the loop. -/
theorem receiveUdp_cons :
    receiveUdp s fd serviceId interrupted (d :: queue) =
      if interrupted 0 then (s, d :: queue)
      else if d.payload = [] then (s, queue)
      else receiveUdp (s.post (udpMsg fd serviceId d).1 serviceId) fd serviceId
        (fun i => interrupted (i + 1)) queue := by
  have whole := d.take_payload
  cases first : interrupted 0 with
  | true =>
    simp [receiveUdp, recvs, recvfrom, first, SocketServer.readUdp, udpCalls]
  | false =>
    rw [if_neg Bool.false_ne_true]
    split
    · rename_i empty
      simp [receiveUdp, recvs, recvfrom, first, SocketServer.readUdp, udpCalls, empty]
    · rename_i bytes
      have length := List.length_pos_iff.mpr bytes
      simp [receiveUdp, recvs, recvfrom, first, SocketServer.readUdp, udpCalls, whole, length, udpMsg]

/-- `ReadUdp` makes at most one call more than there are datagrams. -/
theorem udpCalls_recvs :
    udpCalls (recvs interrupted (queue.length + 1) queue).1 ≤ queue.length + 1 := by
  induction queue generalizing interrupted with
  | nil =>
    cases first : interrupted 0 <;> simp [recvs, recvfrom, first, udpCalls]
  | cons d queue ih =>
    have rest := ih fun i => interrupted (i + 1)
    cases first : interrupted 0 with
    | true => simp [recvs, recvfrom, first, udpCalls]
    | false =>
      rw [recvs, recvfrom]
      dsimp only
      rw [first, if_neg Bool.false_ne_true, udpCalls]
      split
      · exact Nat.succ_le_succ rest
      · exact Nat.succ_le_succ (Nat.zero_le _)

end

/-- `ReadUdp` drains the queue exactly when no call is interrupted while datagrams are left and only
the last datagram may be empty. -/
theorem drainsUdp_iff (s : SocketServer) (fd : Int32) (serviceId : UInt32)
    (interrupted : Nat → Bool) (queue : List Datagram) :
    udpCalls (recvs interrupted (queue.length + 1) queue).1 ≤ queue.length + 1 ∧
    (DrainsUdp s fd serviceId queue (receiveUdp s fd serviceId interrupted queue).1
        (receiveUdp s fd serviceId interrupted queue).2 ↔
      (∀ i < queue.length, interrupted i = false) ∧ ∀ d ∈ queue.dropLast, d.payload ≠ []) := by
  refine ⟨udpCalls_recvs interrupted queue, ?_⟩
  have senders : ∀ d ∈ queue, unpackUdpAddress (udpMsg fd serviceId d).1.udpAddr = some d.sender :=
    fun d _ => unpackUdpAddress_pack d.sender
  suffices ((receiveUdp s fd serviceId interrupted queue).2 = [] ∧
      (receiveUdp s fd serviceId interrupted queue).1.posted =
        s.posted ++ (queue.filter fun d => d.payload ≠ []).map (udpMsg fd serviceId)) ↔
      (∀ i < queue.length, interrupted i = false) ∧ ∀ d ∈ queue.dropLast, d.payload ≠ [] by
    rw [← this]
    exact ⟨fun h => ⟨h.empty, h.posted⟩, fun h => ⟨h.1, h.2, senders⟩⟩
  clear senders
  induction queue generalizing s interrupted with
  | nil => simp [receiveUdp_nil]
  | cons d queue ih =>
    rw [receiveUdp_cons]
    cases first : interrupted 0 with
    | true =>
      rw [if_pos rfl]
      constructor
      · rintro ⟨empty, -⟩
        contradiction
      · rintro ⟨none, -⟩
        rw [none 0 (by simp)] at first
        contradiction
    | false =>
      have calls : (∀ i < (d :: queue).length, interrupted i = false) ↔
          ∀ i < queue.length, interrupted (i + 1) = false := by
        constructor
        · exact fun none i less => none (i + 1) (Nat.succ_lt_succ less)
        · intro none i less
          cases i with
          | zero => exact first
          | succ i => exact none i (Nat.lt_of_succ_lt_succ less)
      rw [if_neg Bool.false_ne_true, calls]
      by_cases empty : d.payload = []
      · rw [if_pos empty]
        cases queue with
        | nil => simp [empty]
        | cons d' queue =>
          constructor
          · rintro ⟨left, -⟩
            contradiction
          · rintro ⟨-, bytes⟩
            exact absurd empty (bytes d (by simp))
      · have rest : (∀ d' ∈ (d :: queue).dropLast, d'.payload ≠ []) ↔
            ∀ d' ∈ queue.dropLast, d'.payload ≠ [] := by
          cases queue with
          | nil => simp
          | cons d' queue => simp [empty]
        have posted : s.posted ++ ((d :: queue).filter fun d => d.payload ≠ []).map
            (udpMsg fd serviceId) = (s.post (udpMsg fd serviceId d).1 serviceId).posted ++
              (queue.filter fun d => d.payload ≠ []).map (udpMsg fd serviceId) := by
          simp [empty, SocketServer.post, udpMsg]
        rw [if_neg empty, rest, posted]
        exact ih (s.post (udpMsg fd serviceId d).1 serviceId) fun i => interrupted (i + 1)

/-- An empty datagram waits before another one, which stays in the queue. -/
theorem not_drainsUdp_empty :
    ¬ ∀ (s : SocketServer) (fd : Int32) (serviceId : UInt32) (interrupted : Nat → Bool)
      (queue : List Datagram), DrainsUdp s fd serviceId queue
        (receiveUdp s fd serviceId interrupted queue).1
        (receiveUdp s fd serviceId interrupted queue).2 := by
  intro claim
  let sender : SockAddr := .v4 (fun _ => 80) fun _ => 127
  let queue : List Datagram := [⟨[], sender, by decide⟩, ⟨[1], sender, by decide⟩]
  have drains := claim .initial 5 7 (fun _ => false) queue
  have left : (receiveUdp .initial 5 7 (fun _ => false) queue).2.length = 1 := by decide
  rw [drains.empty] at left
  contradiction

end Starnet
