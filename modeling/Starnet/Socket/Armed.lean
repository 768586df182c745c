import Starnet.Socket.Slot

/-! The write event of a connection with data to write. `SendBuffer` on a queue that is not empty
arms nothing, so `EPOLLOUT` has to stay registered while a queue holds data. `PauseRead` and
`ResumeRead` look at the queues, but `OnConnectFinish` clears `EPOLLOUT` also when data was sent
while the connection was being made. -/

namespace Starnet

/-- An established TCP connection with data to write is registered for `EPOLLOUT`. -/
def SocketServer.WriteArmed (s : SocketServer) : Prop :=
  ∀ fd conn wb, s.conns fd = some conn → conn.type = .client → conn.connecting = false →
    s.writeBuffers fd = some wb → wb.hasData = true →
    ∃ k e, s.sockets fd = some k ∧ k.events = some e ∧ e.epollout = true

/-- A connection attempt that succeeds has no data to write. -/
def SocketServer.CompletesDrained (s : SocketServer) (op : SocketOp) : Prop :=
  s.CompletesConnect op → (s.slot (SocketServer.opFd op)).wb.hasData = false

namespace ConnWriteBuffer

variable {wb wb' : ConnWriteBuffer}

theorem hasData_eq_false : wb.hasData = false ↔ wb.objs = [] ∧ wb.low = [] := by
  simp [hasData]

@[simp] theorem hasData_warn : wb.warn.1.hasData = wb.hasData := by
  unfold warn
  split <;> rfl

/-- `SendBuffer` that does not arm the write event leaves an empty buffer empty. -/
theorem hasData_send {msg : Submission} {io io' : WriteIo} (sends : wb.send msg io = (wb', false, io'))
    (empty : wb.hasData = false) : wb'.hasData = false := by
  obtain ⟨objs, low⟩ := hasData_eq_false.mp empty
  have direct : wb.send msg io = wb.entireWriteWhenEmpty msg io := by
    simp [send, objs, low]
  rw [direct] at sends
  obtain ⟨k, io₁, -, cases⟩ := wb.entireWriteWhenEmpty_cases msg io
  rcases cases with ⟨-, eq⟩ | ⟨obj, -, -, -, eq⟩
  · obtain ⟨rfl, -, -⟩ := by simpa only [eq, Prod.mk.injEq] using sends
    exact empty
  · rw [eq] at sends
    cases congrArg (fun r => r.2.1) sends

theorem hasData_flush {io io' : WriteIo} (flushes : wb.flush io = (wb', io'))
    (empty : wb.hasData = false) : wb'.hasData = false := by
  obtain ⟨objs, low⟩ := hasData_eq_false.mp empty
  have left : (wb.flush io).1.objs = [] ∧ (wb.flush io).1.low = [] := by
    simp [flush, objs, low, writeAll]
  rw [flushes] at left
  exact hasData_eq_false.mpr left

end ConnWriteBuffer

namespace Slot

/-- The registration includes `EPOLLOUT`. -/
def OutArmed (socket : Option Socket) : Prop :=
  ∃ k e, socket = some k ∧ k.events = some e ∧ e.epollout = true

theorem Registered.outArmed {socket : Option Socket} (h : Registered socket) (paused : Bool) :
    OutArmed (socket.map (Slot.rearm paused true)) := by
  obtain ⟨k, rfl, events⟩ := h
  obtain ⟨e, events⟩ := Option.isSome_iff_exists.mp events
  exact ⟨_, ⟨true, !paused, true⟩, rfl, by simp [Slot.rearm, events], rfl⟩

/-- The invariant of a slot. -/
def Armed (a : Slot) : Prop := a.wb.hasData = true → OutArmed a.socket

theorem Armed.step {a b : Slot} (managed : a.Managed) (h : a.Armed)
    (step : Step (fun a => a.wb.hasData = false) a b) : b.Armed := by
  have idle : ∀ {b : Slot}, b.buffer = none → b.Armed := by
    intro b buffer data
    rw [wb, buffer] at data
    contradiction
  cases step with
  | stay => exact h
  | openFd free k => exact idle (managed.buffered free)
  | manage conn k free sent calls events => exact idle (managed.buffered free)
  | drop conn buffer => exact idle buffer
  | @send conn wb arm io low buff writes owned sends =>
    intro data
    cases arm with
    | true => exact (managed.registered_of owned).outArmed _
    | false =>
      refine h (Bool.not_eq_false _ ▸ fun empty => ?_)
      have unchanged := ConnWriteBuffer.hasData_send sends empty
      rw [Slot.wb, Option.getD_some, ConnWriteBuffer.hasData_warn, unchanged] at data
      contradiction
  | @flush conn wb io socket writes owned flushes kept drained =>
    intro data
    change wb.hasData = true at data
    have same := kept data
    subst same
    refine h (Bool.not_eq_false _ ▸ fun empty => ?_)
    rw [ConnWriteBuffer.hasData_flush flushes empty] at data
    contradiction
  | read readSize readBuffCap owned => exact h
  | @pause conn paused owned =>
    intro data
    have data' : a.buffer.any ConnWriteBuffer.hasData = true := by
      cases buffer : a.buffer with
      | none =>
        rw [wb, buffer] at data
        contradiction
      | some wb =>
        rw [Slot.wb, buffer] at data
        exact data
    rw [data']
    exact (managed.registered_of owned).outArmed _
  | @close wb buffer =>
    intro data
    refine h ?_
    rw [Slot.wb, buffer]
    exact data
  | finish owned connecting drained =>
    intro data
    change a.wb.hasData = true at data
    rw [drained] at data
    contradiction

end Slot

/-- In every run in which a connection attempt succeeds only without data to write, data to write
always has its event armed. -/
theorem writeArmed_of_completesDrained {s : SocketServer} {tr : List SocketOp}
    (run : (socketServer.restrict SocketServer.CompletesDrained).Run s tr) : s.WriteArmed := by
  have inv : ∀ fd, (s.slot fd).Managed ∧ (s.slot fd).Armed := by
    refine run.stateInvariant (P := fun s => ∀ fd, (s.slot fd).Managed ∧ (s.slot fd).Armed) ?_ ?_
    · rintro _ rfl fd
      exact ⟨Slot.Managed.initial, fun data => by cases data⟩
    · rintro s op s' before ⟨step, drained⟩
      exact SocketServer.step_slots step (fun a b managed armed step => armed.step managed step)
        drained before
  intro fd conn wb _ _ _ buffer data
  refine (inv fd).2 ?_
  rw [Slot.wb, SocketServer.slot_buffer, buffer]
  exact data

/-- A connection is made, and a message sent on it is written in part. -/
theorem writeArmed_after_connect :
    let s₁ := SocketServer.initial.connect 5 7 none
    let s₂ := s₁.onRW 5 false true {}
    let s₃ := (s₂.sendBuffer 5 [1, 2, 3] false [.wrote 1]).2
    ((s₃.writeBuffers 5).any ConnWriteBuffer.hasData) = true ∧ s₃.WriteArmed := by
  intro s₁ s₂ s₃
  have run₀ : (socketServer.restrict SocketServer.CompletesDrained).Run SocketServer.initial [] :=
    .init rfl
  have step₁ : SocketServer.Step .initial (.connect 5 7 none) s₁ := .connect rfl
  have step₂ : s₁.Step (.onRW 5 false true {}) s₂ :=
    .onRW (show s₁.conns 5 = some ((s₁.conns 5).get rfl) from rfl) (by decide)
  have step₃ : s₂.Step (.sendBuffer 5 [1, 2, 3] false [.wrote 1]) s₃ := .sendBuffer ..
  have run₁ := run₀.step ⟨step₁, fun completes => completes.elim⟩
  have run₂ := run₁.step ⟨step₂, fun _ => rfl⟩
  have run₃ := run₂.step ⟨step₃, fun completes => completes.elim⟩
  exact ⟨rfl, writeArmed_of_completesDrained run₃⟩

/-- A message sent while the connection is being made waits for an event that `OnConnectFinish`
turns off. -/
theorem not_writeArmed_onConnectFinish :
    ¬∀ s tr, socketServer.Run s tr → s.WriteArmed := by
  intro claim
  let s₁ := SocketServer.initial.connect 5 7 none
  let s₂ := (s₁.sendBuffer 5 [1] false [.eagain]).2
  let s₃ := s₂.onRW 5 false true {}
  have step₁ : SocketServer.Step .initial (.connect 5 7 none) s₁ := .connect rfl
  have step₂ : s₁.Step (.sendBuffer 5 [1] false [.eagain]) s₂ := .sendBuffer ..
  have step₃ : s₂.Step (.onRW 5 false true {}) s₃ :=
    .onRW (show s₂.conns 5 = some ((s₂.conns 5).get rfl) from rfl) (by decide)
  have run₀ : socketServer.Run SocketServer.initial [] := .init rfl
  have run₃ := ((run₀.step step₁).step step₂).step step₃
  obtain ⟨k, e, socket, events, out⟩ := claim s₃ _ run₃ 5 ((s₃.conns 5).get rfl)
    ((s₃.writeBuffers 5).get rfl) rfl rfl rfl rfl rfl
  have cleared : s₃.sockets 5 = some { events := some ⟨true, true, false⟩ } := rfl
  rw [cleared] at socket
  obtain rfl := Option.some.inj socket
  obtain rfl := Option.some.inj events
  contradiction

end Starnet
