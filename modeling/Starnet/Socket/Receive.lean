import Starnet.Socket.Event
import Mathlib.Algebra.BigOperators.Group.Finset.Basic

/-! Reading a stream at an edge. The kernel reports the connection once for all that arrived, so
`ReadData` has to read until nothing is left. It stops after a read that does not fill its buffer,
and then misses an end of file that arrived together with the data. -/

namespace Starnet

/-- What the kernel has received on a connection: the bytes that are not read yet, and whether the
peer ended its side. -/
structure Inbound where
  bytes : List UInt8
  fin : Bool
  deriving DecidableEq, Repr

/-- `read(fd, buff, sz)`; when there is nothing to return it may be interrupted. -/
def Inbound.read (k : Inbound) (sz : Nat) (interrupted : Bool) : ReadOutcome × Inbound :=
  if k.bytes = [] then
    if k.fin then (.eof, k) else (if interrupted then .eintr else .eagain, k)
  else (.data (k.bytes.take sz), { k with bytes := k.bytes.drop sz })

/-- `ReadData` on what the kernel has received, until it returns. -/
inductive Receives (fd : Int32) : SocketServer → Inbound → SocketServer → Inbound → Prop
  | stop {s s' : SocketServer} {k : Inbound} {conn : Conn} (managed : s.conns fd = some conn)
      (interrupted : Bool) (round : s.readRound fd (k.read conn.readSize interrupted).1 = (false, s')) :
      Receives fd s k s' (k.read conn.readSize interrupted).2
  | again {s s₁ s' : SocketServer} {k k' : Inbound} {conn : Conn}
      (managed : s.conns fd = some conn) (interrupted : Bool)
      (round : s.readRound fd (k.read conn.readSize interrupted).1 = (true, s₁))
      (rest : Receives fd s₁ (k.read conn.readSize interrupted).2 s' k') : Receives fd s k s' k'

/-- Nothing is left, an end of file has closed the connection, and the `DATA` messages have the
bytes that were read. -/
structure Drains (fd : Int32) (serviceId : UInt32) (s : SocketServer) (k : Inbound)
    (s' : SocketServer) (k' : Inbound) : Prop where
  bytes : k'.bytes = []
  fin : k.fin = true → s'.conns fd = none ∧
    (SocketServer.socketMsg .close fd, serviceId) ∈ s'.posted.drop s.posted.length
  data : ∃ chunks : List (List UInt8), chunks.flatten ++ k'.bytes = k.bytes ∧
    (s'.posted.drop s.posted.length).filter (·.1.subtype = .data) =
      chunks.map fun buff => ({ SocketServer.socketMsg .data fd with buff := buff }, serviceId)

/-- The `readSize` after a read that fills the buffer. -/
def grow (readSize : Nat) : Nat :=
  if readSize < readBufferMax then
    if readSize * 2 > readBufferMax then readBufferMax else readSize * 2
  else readSize

/-- So many bytes fill the buffers of the first reads. -/
def Fills (readSize n : Nat) : Prop := ∃ j, n = ∑ i ∈ Finset.range j, grow^[i] readSize

theorem fills_zero (readSize : Nat) : Fills readSize 0 := ⟨0, rfl⟩

/-- The first buffer is filled, and the rest fills the next ones. -/
theorem fills_succ {readSize n : Nat} (pos : 0 < n) :
    Fills readSize n ↔ readSize ≤ n ∧ Fills (grow readSize) (n - readSize) := by
  have next : ∀ j, ∑ i ∈ Finset.range (j + 1), grow^[i] readSize =
      ∑ i ∈ Finset.range j, grow^[i] (grow readSize) + readSize := by
    intro j
    rw [Finset.sum_range_succ']
    rfl
  constructor
  · rintro ⟨j, rfl⟩
    cases j with
    | zero => exact absurd pos (by simp)
    | succ j =>
      rw [next]
      exact ⟨Nat.le_add_left .., j, by rw [Nat.add_sub_cancel]⟩
  · rintro ⟨le, j, sum⟩
    refine ⟨j + 1, ?_⟩
    rw [next, ← sum, Nat.sub_add_cancel le]

theorem grow_pos {readSize : Nat} (pos : 0 < readSize) : 0 < grow readSize := by
  unfold grow
  have max : 0 < readBufferMax := by decide
  split_ifs <;> omega

namespace SocketServer

variable {s : SocketServer} {fd : Int32} {conn : Conn}

theorem adaptReadSize_full (conn : Conn) :
    (adaptReadSize (growBuffer conn) conn.readSize).readSize = grow conn.readSize ∧
      (adaptReadSize (growBuffer conn) conn.readSize).serviceId = conn.serviceId := by
  obtain ⟨cap, grown⟩ := growBuffer_eq conn
  rw [grown, adaptReadSize, if_pos rfl]
  unfold grow
  dsimp only
  split_ifs <;> exact ⟨rfl, rfl⟩

/-- A round that finds nothing to read. -/
theorem readRound_none (managed : s.conns fd = some conn) (interrupted : Bool) :
    (s.readRound fd (if interrupted then .eintr else .eagain)).1 = false ∧
      (s.readRound fd (if interrupted then .eintr else .eagain)).2.posted = s.posted ∧
      (s.readRound fd (if interrupted then .eintr else .eagain)).2.conns fd ≠ none := by
  cases interrupted with
  | true =>
    rw [if_pos rfl, readRound, managed]
    exact ⟨rfl, rfl, by simp⟩
  | false =>
    rw [if_neg Bool.false_ne_true, readRound, managed]
    exact ⟨rfl, rfl, by simp⟩

/-- A round that finds the end of file. -/
theorem readRound_eof (managed : s.conns fd = some conn) :
    (s.readRound fd .eof).1 = false ∧
      (s.readRound fd .eof).2.posted = s.posted ++ [(socketMsg .close fd, conn.serviceId)] ∧
      (s.readRound fd .eof).2.conns fd = none := by
  obtain ⟨cap, grown⟩ := growBuffer_eq conn
  have closed : ((s.setConn fd (some (growBuffer conn))).notifyClose fd
      (growBuffer conn)).conns fd = none := (notifyClose_slot (growBuffer conn)).1
  rw [readRound, managed]
  refine ⟨rfl, ?_, closed⟩
  dsimp only
  rw [grown, notifyClose]
  cases conn.isBind <;> rfl

end SocketServer

/-- A round that finds bytes. -/
theorem SocketServer.readRound_some {s : SocketServer} {fd : Int32} {conn : Conn}
    {bytes : List UInt8} (managed : s.conns fd = some conn) (pos : 0 < conn.readSize)
    (found : bytes ≠ []) :
    let round := s.readRound fd (.data (bytes.take conn.readSize))
    round.1 = (conn.readSize ≤ bytes.length : Bool) ∧
      round.2.conns fd =
        some (adaptReadSize (growBuffer conn) (bytes.take conn.readSize).length) ∧
      round.2.posted = s.posted ++
        [({ socketMsg .data fd with buff := bytes.take conn.readSize }, conn.serviceId)] := by
  have same : (bytes.take conn.readSize).take conn.readSize = bytes.take conn.readSize := by
    rw [List.take_take, Nat.min_self]
  have length := List.length_pos_iff.mpr found
  have some : ((bytes.take conn.readSize).take conn.readSize).length > 0 := by
    rw [same, List.length_take]
    omega
  obtain ⟨again, conns, -, posted⟩ := readRound_data managed some
  rw [same] at again conns posted
  refine ⟨?_, conns, posted⟩
  rw [again, List.length_take, decide_eq_decide]
  omega

/-- A round that another one follows has found bytes. -/
theorem bytes_of_again {s : SocketServer} {fd : Int32} {k : Inbound} {conn : Conn}
    (managed : s.conns fd = some conn) (interrupted : Bool)
    (again : (s.readRound fd (k.read conn.readSize interrupted).1).1 = true) : k.bytes ≠ [] := by
  intro none
  rw [Inbound.read, if_pos none] at again
  cases fin : k.fin with
  | true =>
    rw [fin, if_pos rfl, (SocketServer.readRound_eof managed).1] at again
    contradiction
  | false =>
    rw [fin, if_neg Bool.false_ne_true, (SocketServer.readRound_none managed interrupted).1] at again
    contradiction

/-- What `ReadData` leaves and posts: everything is read, and the end of file is noticed when the
bytes before it fill the buffers. -/
structure Received (fd : Int32) (conn : Conn) (s : SocketServer) (k : Inbound) (s' : SocketServer)
    (k' : Inbound) (chunks : List (List UInt8)) (closed : Bool) : Prop where
  bytes : k'.bytes = []
  all : chunks.flatten = k.bytes
  posted : s'.posted = s.posted ++
    (chunks.map fun buff =>
      ({ SocketServer.socketMsg .data fd with buff := buff }, conn.serviceId)) ++
    if closed then [(SocketServer.socketMsg .close fd, conn.serviceId)] else []
  ends : closed = true ↔ k.fin = true ∧ Fills conn.readSize k.bytes.length
  conns : s'.conns fd = none ↔ closed = true

theorem Receives.received {fd : Int32} {s s' : SocketServer} {k k' : Inbound}
    (h : Receives fd s k s' k') {conn : Conn} (managed : s.conns fd = some conn)
    (pos : 0 < conn.readSize) : ∃ chunks closed, Received fd conn s k s' k' chunks closed := by
  induction h generalizing conn with
  | @stop s s' k conn' managed' interrupted round =>
    obtain rfl := Option.some.inj (managed.symm.trans managed')
    unfold Inbound.read at round ⊢
    by_cases none : k.bytes = []
    · have fills : Fills conn.readSize k.bytes.length := by
        rw [none]
        exact fills_zero _
      rw [if_pos none] at round ⊢
      cases fin : k.fin with
      | true =>
        rw [fin, if_pos rfl] at round
        obtain ⟨-, posted, conns⟩ := SocketServer.readRound_eof managed
        rw [round] at posted conns
        refine ⟨[], true, ?_⟩
        rw [if_pos rfl]
        refine ⟨none, none.symm, ?_, ?_, ?_⟩
        · rw [posted, if_pos rfl]
          simp
        · exact ⟨fun _ => ⟨fin, fills⟩, fun _ => rfl⟩
        · exact ⟨fun _ => rfl, fun _ => conns⟩
      | false =>
        rw [fin, if_neg Bool.false_ne_true] at round
        obtain ⟨-, posted, conns⟩ := SocketServer.readRound_none managed interrupted
        rw [round] at posted conns
        refine ⟨[], false, ?_⟩
        rw [if_neg Bool.false_ne_true]
        refine ⟨none, none.symm, ?_, ?_, ?_⟩
        · rw [posted]
          simp
        · simp [fin]
        · simpa using conns
    · rw [if_neg none] at round ⊢
      obtain ⟨full, conns, posted⟩ := SocketServer.readRound_some managed pos none
      rw [round] at full conns posted
      have short : k.bytes.length < conn.readSize := by
        have := of_decide_eq_false full.symm
        omega
      refine ⟨[k.bytes.take conn.readSize], false, ?_⟩
      refine ⟨List.drop_of_length_le short.le, ?_, ?_, ?_, ?_⟩
      · rw [List.take_of_length_le short.le]
        simp
      · rw [posted]
        simp
      · rw [fills_succ (List.length_pos_iff.mpr none)]
        exact ⟨fun closed => absurd closed (by simp), fun fills => by omega⟩
      · rw [conns]
        simp
  | @again s s₁ s' k k' conn' managed' interrupted round rest ih =>
    obtain rfl := Option.some.inj (managed.symm.trans managed')
    have found := bytes_of_again managed interrupted (by rw [round])
    unfold Inbound.read at round rest ih
    rw [if_neg found] at round ih
    obtain ⟨full, conns, posted⟩ := SocketServer.readRound_some managed pos found
    rw [round] at full conns posted
    have le : conn.readSize ≤ k.bytes.length := of_decide_eq_true full.symm
    rw [List.length_take_of_le le] at conns
    obtain ⟨size, service⟩ := SocketServer.adaptReadSize_full conn
    obtain ⟨chunks, closed, received⟩ := ih conns (by rw [size]; exact grow_pos pos)
    refine ⟨k.bytes.take conn.readSize :: chunks, closed, ?_⟩
    refine ⟨received.bytes, ?_, ?_, ?_, received.conns⟩
    · rw [List.flatten_cons, received.all]
      exact List.take_append_drop ..
    · rw [received.posted, posted, service]
      simp
    · rw [received.ends, size, fills_succ (List.length_pos_iff.mpr found)]
      simp [le]

/-- `ReadData` is the loop of the engine for some answers. -/
theorem Receives.readData {fd : Int32} {s s' : SocketServer} {k k' : Inbound}
    (h : Receives fd s k s' k') : ∃ outcomes, s' = s.readData fd outcomes := by
  induction h with
  | stop managed interrupted round =>
    exact ⟨[_], by rw [SocketServer.readData, round]⟩
  | again managed interrupted round rest ih =>
    obtain ⟨outcomes, rfl⟩ := ih
    exact ⟨_ :: outcomes, by rw [SocketServer.readData, round]⟩

/-- `ReadData` returns. -/
theorem receives_total {fd : Int32} (n : Nat) : ∀ {s : SocketServer} {conn : Conn} {k : Inbound},
    k.bytes.length = n → s.conns fd = some conn → 0 < conn.readSize →
      ∃ s' k', Receives fd s k s' k' := by
  induction n using Nat.strong_induction_on with
  | _ n ih =>
    intro s conn k length managed pos
    rcases round : s.readRound fd (k.read conn.readSize false).1 with ⟨more, s₁⟩
    cases more with
    | false => exact ⟨s₁, _, .stop managed false round⟩
    | true =>
      have found := bytes_of_again managed false (by rw [round])
      have kept := round
      unfold Inbound.read at kept
      rw [if_neg found] at kept
      obtain ⟨full, conns, -⟩ := SocketServer.readRound_some managed pos found
      rw [kept] at full conns
      have le : conn.readSize ≤ k.bytes.length := of_decide_eq_true full.symm
      have less : (k.read conn.readSize false).2.bytes.length < n := by
        rw [Inbound.read, if_neg found, List.length_drop]
        omega
      rw [List.length_take_of_le le] at conns
      have grown := (SocketServer.adaptReadSize_full conn).1
      obtain ⟨s', k', rest⟩ := ih _ less rfl conns (by rw [grown]; exact grow_pos pos)
      exact ⟨s', k', .again managed false round rest⟩

/-- `ReadData` returns, and then it has read everything and noticed the end of file exactly when
there is none or the bytes before it fill the buffers of the reads. -/
theorem drains_iff {fd : Int32} {s : SocketServer} {conn : Conn} (managed : s.conns fd = some conn)
    (pos : 0 < conn.readSize) (k : Inbound) :
    (∃ s' k', Receives fd s k s' k') ∧ ∀ s' k', Receives fd s k s' k' →
      (Drains fd conn.serviceId s k s' k' ↔ k.fin = false ∨ Fills conn.readSize k.bytes.length) := by
  refine ⟨receives_total _ rfl managed pos, fun s' k' receives => ?_⟩
  obtain ⟨chunks, closed, received⟩ := receives.received managed pos
  have new : s'.posted.drop s.posted.length =
      (chunks.map fun buff =>
        ({ SocketServer.socketMsg .data fd with buff := buff }, conn.serviceId)) ++
      if closed then [(SocketServer.socketMsg .close fd, conn.serviceId)] else [] := by
    rw [received.posted, List.append_assoc, List.drop_left]
  constructor
  · intro drains
    cases fin : k.fin with
    | false => exact Or.inl rfl
    | true => exact Or.inr (received.ends.mp (received.conns.mp (drains.fin fin).1)).2
  · intro noticed
    refine ⟨received.bytes, fun fin => ?_, chunks, ?_, ?_⟩
    · have ends := received.ends.mpr ⟨fin, noticed.resolve_left (by simp [fin])⟩
      refine ⟨received.conns.mpr ends, ?_⟩
      rw [new, if_pos ends]
      exact List.mem_append_right _ (List.mem_singleton_self _)
    · rw [received.bytes, List.append_nil, received.all]
    · rw [new, List.filter_append]
      have data : ∀ l : List (List UInt8), (l.map fun buff =>
          ({ SocketServer.socketMsg .data fd with buff := buff }, conn.serviceId)).filter
            (·.1.subtype = .data) = l.map fun buff =>
          ({ SocketServer.socketMsg .data fd with buff := buff }, conn.serviceId) := by
        intro l
        rw [List.filter_eq_self]
        rintro m mem
        obtain ⟨buff, -, rfl⟩ := List.mem_map.mp mem
        rfl
      rw [data]
      cases closed with
      | true => simp [SocketServer.socketMsg]
      | false => simp

/-- In every run, a connection reads at least one byte at a time. -/
theorem readSize_pos_of_run {s : SocketServer} {tr : List SocketOp} (run : socketServer.Run s tr)
    {fd : Int32} {conn : Conn} (managed : s.conns fd = some conn) : 0 < conn.readSize := by
  refine run.invariant (P := fun s _ => ∀ conn, s.conns fd = some conn → 0 < conn.readSize) ?_ ?_
    conn managed
  · rintro _ rfl conn managed
    simp [SocketServer.initial] at managed
  · intro s tr op s' run sized step conn managed
    rcases SocketServer.step_turns step (SocketServer.managed_of_run run fd) with same | ⟨-, turn⟩
    · exact sized conn ((congrArg Slot.conn same).symm.trans managed)
    · cases turn with
      | gone none =>
        rw [SocketServer.slot_conn, managed] at none
        contradiction
      | opened before after sent calls buffer size =>
        cases after.symm.trans managed
        exact size
      | kept before after sent calls wb size =>
        cases after.symm.trans managed
        exact size (sized _ before)
      | sent low buff writes eq before opens after sent calls wb size =>
        cases after.symm.trans managed
        exact size (sized _ before)
      | flushed r answers eq before after sent calls wb size =>
        cases after.symm.trans managed
        exact size (sized _ before)

/-- Three bytes and an end of file wait on a new connection, and the end of file is missed. -/
theorem drains_iff_short :
    let s₁ := SocketServer.initial.connect 5 7 (some [])
    let k : Inbound := ⟨[1, 2, 3], true⟩
    (∃ s' k', Receives 5 s₁ k s' k') ∧ ∀ s' k', Receives 5 s₁ k s' k' →
      (Drains 5 7 s₁ k s' k' ↔ k.fin = false ∨ Fills readBufferMin k.bytes.length) := by
  intro s₁ k
  have step₁ : SocketServer.Step .initial (.connect 5 7 (some [])) s₁ := .connect rfl
  have run₀ : socketServer.Run SocketServer.initial [] := .init rfl
  have managed : s₁.conns 5 = some ((s₁.conns 5).get rfl) := rfl
  exact drains_iff managed (readSize_pos_of_run (run₀.step step₁) managed) k

/-- A byte and an end of file arrive together. The byte is read, and the end of file is not. -/
theorem not_drains_end_of_file :
    ¬ ∀ (fd : Int32) (s : SocketServer) (conn : Conn) (k : Inbound), s.conns fd = some conn →
      0 < conn.readSize → ∀ s' k', Receives fd s k s' k' → Drains fd conn.serviceId s k s' k' := by
  intro claim
  let s₁ := SocketServer.initial.connect 5 7 (some [])
  let k : Inbound := ⟨[1], true⟩
  have managed : s₁.conns 5 = some ((s₁.conns 5).get rfl) := rfl
  have read : Receives 5 s₁ k (s₁.readRound 5 (.data [1])).2 ⟨[], true⟩ := .stop managed false rfl
  have drains := claim 5 s₁ _ k managed (by decide) _ _ read
  exact absurd (drains.fin rfl).1 (by decide)

end Starnet
