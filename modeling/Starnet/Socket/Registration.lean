import Starnet.Socket.Slot

/-! The registration of a connection in the epoll set. `OnAccept`, `Connect`, `CloseConn` and
`NotifyClose` run on any number of threads, in steps as small as their accesses to the tables and
to the kernel. `RemoveEvent` takes a registration away by its number, which belongs to the next
owner of the descriptor since `close`. -/

namespace Starnet

namespace Registration

open SocketServer (socketMsg)

/-- How a descriptor comes into `conns`. -/
inductive Opening
  | accept (listenFd : Int32) (serviceId : UInt32)
  | connect (serviceId : UInt32) (ip : Option (List UInt8))
  deriving DecidableEq, Repr

namespace Opening

/-- What `AddConn` puts into `conns`. -/
def conn : Opening → Conn
  | accept _ serviceId | connect serviceId _ => { type := .client, serviceId }

/-- The assignment to the connection after `AddConn`. -/
def mark (opening : Opening) (conn : Conn) : Conn :=
  match opening with
  | accept .. => conn
  | connect _ ip => { conn with connecting := ip.isNone }

/-- The registration. -/
def addEvent (opening : Opening) (s : SocketServer) (fd : Int32) : SocketServer :=
  match opening with
  | accept .. => s.epollAdd fd ⟨true, true, false⟩
  | connect .. => s.addEvent fd

/-- What follows the registration. -/
def finish (opening : Opening) (s : SocketServer) (fd : Int32) : SocketServer :=
  match opening with
  | accept listenFd serviceId =>
    s.post { socketMsg .accept fd with listenFd := listenFd } serviceId
  | connect serviceId (some ip) => s.post { socketMsg .connect fd with buff := ip } serviceId
  | connect _ none => s.modifyEvent fd true

end Opening

/-- What a thread does next in the call that it is in. -/
inductive Task
  | idle
  | postClose (fd : Int32) (conn : Conn)
  | removeConn (fd : Int32) (isBind notify : Bool)
  | close (fd : Int32) (isBind succ : Bool)
  | removeEvent (fd : Int32)
  | addConn (fd : Int32) (opening : Opening)
  | mark (fd : Int32) (opening : Opening)
  | addEvent (fd : Int32) (opening : Opening)
  | finish (fd : Int32) (opening : Opening)
  deriving DecidableEq, Repr

namespace Task

/-- One step of a thread. `CloseConn` removes the event of a connection that it has removed itself,
`NotifyClose` in any case. -/
def run (s : SocketServer) : Task → SocketServer × Task
  | idle => (s, idle)
  | postClose fd conn =>
    (s.post (socketMsg .close fd) conn.serviceId, removeConn fd conn.isBind true)
  | removeConn fd isBind notify =>
    (s.removeConn fd, close fd isBind (notify || (s.conns fd).isSome))
  | close fd isBind succ =>
    (if isBind then s else s.close fd, if succ then removeEvent fd else idle)
  | removeEvent fd => (s.removeEvent fd, idle)
  | addConn fd opening => (s.addConn fd opening.conn, mark fd opening)
  | mark fd opening => (s.modConn fd opening.mark, addEvent fd opening)
  | addEvent fd opening => (opening.addEvent s fd, finish fd opening)
  | finish fd opening => (opening.finish s fd, idle)

/-- The descriptor that the thread works on. -/
def fd : Task → Option Int32
  | idle => none
  | postClose fd _ | removeConn fd _ _ | close fd _ _ | removeEvent fd | addConn fd _ | mark fd _
  | addEvent fd _ | finish fd _ => some fd

/-- The thread has its descriptor still to register. -/
def adds : Task → Bool
  | addConn .. | mark .. | addEvent .. => true
  | _ => false

end Task

/-- The calls. The descriptor of `OnAccept` and `Connect` is the one that the kernel gives. -/
inductive Call
  | accept (listenFd fd : Int32)
  | connect (fd : Int32) (serviceId : UInt32) (ip : Option (List UInt8))
  | closeConn (fd : Int32)
  | notifyClose (fd : Int32)
  deriving DecidableEq, Repr

/-- The kernel gives a descriptor that is closed. -/
def openFor (s : SocketServer) (fd : Int32) (opening : Opening) : Option (SocketServer × Task) :=
  if s.sockets fd = none then some (s.setSocket fd (some {}), .addConn fd opening) else none

/-- The first step of a call: the descriptor is obtained, or the connection looked up. -/
def Call.start (s : SocketServer) : Call → Option (SocketServer × Task)
  | accept listenFd fd =>
    (s.conns listenFd).bind fun conn =>
      if conn.type = .listen then openFor s fd (.accept listenFd conn.serviceId) else none
  | connect fd serviceId ip => openFor s fd (.connect serviceId ip)
  | closeConn fd => some (s, .removeConn fd (s.connHas fd Conn.isBind) false)
  | notifyClose fd => (s.conns fd).map fun conn => (s, .postClose fd conn)

/-- The engine and its threads. -/
structure Engine (ι : Type) where
  server : SocketServer
  threads : ι → Task

/-- A thread enters a call, or goes on with the one that it is in. -/
inductive Move (ι : Type)
  | call (t : ι) (call : Call)
  | run (t : ι)

namespace Engine

variable {ι : Type} [DecidableEq ι]

/-- A thread has done a step. -/
def become (e : Engine ι) (t : ι) (step : SocketServer × Task) : Engine ι :=
  ⟨step.1, Function.update e.threads t step.2⟩

/-- The engine after a move, if it can be made. -/
def next (e : Engine ι) : Move ι → Option (Engine ι)
  | .call t call => if e.threads t = .idle then (call.start e.server).map (e.become t) else none
  | .run t => some (e.become t ((e.threads t).run e.server))

/-- No call is in progress. -/
def Quiet (e : Engine ι) : Prop := ∀ t, e.threads t = .idle

/-- Every open descriptor in `conns` has a registration. -/
def Registered (e : Engine ι) : Prop :=
  ∀ fd, (e.server.conns fd).isSome = true → (e.server.sockets fd).isSome = true →
    Slot.Registered (e.server.sockets fd)

/-- `RemoveEvent` takes no registration from a connection that has taken over the number, unless a
thread is still to register it. -/
def SparesSuccessor (e : Engine ι) : Move ι → Prop
  | .run t => ∀ fd, e.threads t = .removeEvent fd → (e.server.conns fd).isSome = true →
      Slot.Registered (e.server.sockets fd) →
      ∃ t', (e.threads t').fd = some fd ∧ (e.threads t').adds = true
  | _ => True

end Engine

/-- The engine from any state between two calls, with the calls on the threads `ι` in any order. -/
def engine (ι : Type) [DecidableEq ι] : Transition.System (Engine ι) (Move ι) where
  init e := e.Quiet ∧ e.Registered
  step e move e' := e.next move = some e'

end Registration

/-! ### Descriptors without a registration -/

/-- Managed and open, but not registered. -/
structure Slot.Exposed (a : Slot) : Prop where
  managed : a.conn.isSome = true
  opened : a.socket.isSome = true
  deaf : ¬Slot.Registered a.socket

theorem Slot.Exposed.map {a : Slot} {conn : Option Conn} {f : Socket → Socket}
    (h : Exposed ⟨conn, a.buffer, a.socket.map f⟩) (managed : conn.isSome = a.conn.isSome)
    (keeps : ∀ k, (f k).events.isSome = k.events.isSome) : a.Exposed where
  managed := managed ▸ h.managed
  opened := by simpa using h.opened
  deaf registered := h.deaf (registered.map keeps)

namespace Registration

open SocketServer (setSocket_other close_other removeConn_other removeEvent_other modifyEvent_other
  modConn_other addConn_other)

variable {s : SocketServer} {fd fd' : Int32}

theorem Opening.addEvent_other (opening : Opening) (other : fd' ≠ fd) :
    (opening.addEvent s fd).slot fd' = s.slot fd' := by
  cases opening <;> exact setSocket_other other _

theorem Opening.finish_other (opening : Opening) (other : fd' ≠ fd) :
    (opening.finish s fd).slot fd' = s.slot fd' := by
  unfold finish
  split
  · rfl
  · rfl
  · exact modifyEvent_other other true

theorem Task.run_other (task : Task) (other : task.fd ≠ some fd) :
    (task.run s).1.slot fd = s.slot fd := by
  have ne : ∀ {fd'}, some fd' ≠ some fd → fd ≠ fd' := fun h eq => h (congrArg some eq.symm)
  cases task with
  | idle | postClose => rfl
  | removeConn => exact removeConn_other (ne other)
  | close fd isBind succ =>
    cases isBind with
    | true => rfl
    | false => exact close_other (ne other)
  | removeEvent => exact removeEvent_other (ne other)
  | addConn => exact addConn_other (ne other) _
  | mark => exact modConn_other (ne other) _
  | addEvent fd opening => exact opening.addEvent_other (ne other)
  | finish fd opening => exact opening.finish_other (ne other)

theorem Opening.addEvent_registered (opening : Opening)
    (opened : ((opening.addEvent s fd).sockets fd).isSome = true) :
    Slot.Registered ((opening.addEvent s fd).sockets fd) := by
  have added : ∀ events, (s.epollAdd fd events).sockets fd =
      (s.sockets fd).map fun k => { k with events := some (k.events.getD events) } :=
    fun events => SocketServer.sockets_setSocket s fd _
  cases opening with
  | accept | connect =>
    simp only [addEvent, SocketServer.addEvent, added, Option.isSome_map] at opened ⊢
    obtain ⟨k, socket⟩ := Option.isSome_iff_exists.mp opened
    exact ⟨_, by rw [socket, Option.map_some], rfl⟩

/-- A step leaves a descriptor exposed that was so before, one that the thread is still to
register, or one whose registration it takes away. -/
theorem Task.run_exposed {task : Task} (here : task.fd = some fd)
    (exposed : ((task.run s).1.slot fd).Exposed) :
    (s.slot fd).Exposed ∧ task.adds = false ∨
      (task.run s).2.fd = some fd ∧ (task.run s).2.adds = true ∨
      task = .removeEvent fd ∧ (s.conns fd).isSome = true ∧ Slot.Registered (s.sockets fd) := by
  cases task with
  | idle => cases here
  | postClose => exact Or.inl ⟨exposed, rfl⟩
  | removeConn fd isBind notify =>
    cases here
    have managed := exposed.managed
    rw [run, SocketServer.slot_removeConn] at managed
    cases managed
  | close fd isBind succ =>
    cases here
    cases isBind with
    | true => exact Or.inl ⟨exposed, rfl⟩
    | false =>
      have opened := exposed.opened
      simp only [run, Bool.false_eq_true, if_false, SocketServer.slot_close] at opened
      cases opened
  | removeEvent fd =>
    cases here
    rw [run, SocketServer.slot_removeEvent] at exposed
    by_cases registered : Slot.Registered (s.sockets fd)
    · exact Or.inr (Or.inr ⟨rfl, exposed.managed, registered⟩)
    · exact Or.inl ⟨⟨exposed.managed, by simpa using exposed.opened, registered⟩, rfl⟩
  | addConn fd opening => exact Or.inr (Or.inl ⟨here, rfl⟩)
  | mark fd opening => exact Or.inr (Or.inl ⟨here, rfl⟩)
  | addEvent fd opening =>
    cases here
    exact absurd (opening.addEvent_registered exposed.opened) exposed.deaf
  | finish fd opening =>
    cases here
    refine Or.inl ⟨?_, rfl⟩
    unfold run Opening.finish at exposed
    dsimp only at exposed
    split at exposed
    · exact exposed
    · exact exposed
    · rw [SocketServer.slot_modifyEvent] at exposed
      exact Slot.Exposed.map (a := s.slot fd) exposed rfl fun _ => Option.isSome_map

namespace Engine

variable {ι : Type} [DecidableEq ι] {e e' : Engine ι}

@[simp] theorem become_self (t : ι) (step : SocketServer × Task) :
    (e.become t step).threads t = step.2 := Function.update_self ..

@[simp] theorem become_of_ne {t t' : ι} (other : t' ≠ t) (step : SocketServer × Task) :
    (e.become t step).threads t' = e.threads t' := Function.update_of_ne other ..

/-- A thread is still to register each descriptor without a registration. -/
def Covered (e : Engine ι) : Prop :=
  ∀ fd, (e.server.slot fd).Exposed → ∃ t, (e.threads t).fd = some fd ∧ (e.threads t).adds = true

/-- A descriptor stays covered by a thread other than the one that does a step. -/
theorem covered_become {t t' : ι} {step : SocketServer × Task} (other : t' ≠ t)
    (adds : (e.threads t').fd = some fd ∧ (e.threads t').adds = true) :
    ∃ t', ((e.become t step).threads t').fd = some fd ∧
      ((e.become t step).threads t').adds = true := by
  exact ⟨t', by rwa [become_of_ne other]⟩

theorem Covered.run (h : e.Covered) (t : ι) (spares : e.SparesSuccessor (.run t)) :
    (e.become t ((e.threads t).run e.server)).Covered := by
  intro fd exposed
  by_cases here : (e.threads t).fd = some fd
  · rcases Task.run_exposed here exposed with ⟨before, done⟩ | adds | ⟨removes, managed, registered⟩
    · obtain ⟨t', on, adds⟩ := h fd before
      exact covered_become (by rintro rfl; cases done.symm.trans adds) ⟨on, adds⟩
    · exact ⟨t, by rwa [become_self]⟩
    · obtain ⟨t', on, adds⟩ := spares fd removes managed registered
      refine covered_become ?_ ⟨on, adds⟩
      rintro rfl
      rw [removes] at adds
      cases adds
  · have same : (e.become t ((e.threads t).run e.server)).server.slot fd = e.server.slot fd :=
      Task.run_other _ here
    obtain ⟨t', on, adds⟩ := h fd (same ▸ exposed)
    exact covered_become (by rintro rfl; exact here on) ⟨on, adds⟩

/-- A call starts with a new descriptor or with a look at the tables. -/
theorem start_cases {call : Call} {step : SocketServer × Task}
    (starts : call.start s = some step) :
    step.1 = s ∨ ∃ fd opening, step = (s.setSocket fd (some {}), .addConn fd opening) := by
  have opens : ∀ {fd opening}, openFor s fd opening = some step →
      step.1 = s ∨ ∃ fd opening, step = (s.setSocket fd (some {}), .addConn fd opening) := by
    intro fd opening opens
    unfold openFor at opens
    split at opens
    · exact Or.inr ⟨fd, opening, (Option.some.inj opens).symm⟩
    · cases opens
  cases call with
  | accept listenFd fd =>
    obtain ⟨conn, -, opened⟩ := Option.bind_eq_some_iff.mp starts
    split at opened
    · exact opens opened
    · cases opened
  | connect fd serviceId ip => exact opens starts
  | closeConn fd => exact Or.inl (congrArg Prod.fst (Option.some.inj starts)).symm
  | notifyClose fd =>
    obtain ⟨conn, -, rfl⟩ := Option.map_eq_some_iff.mp starts
    exact Or.inl rfl

theorem Covered.call (h : e.Covered) {t : ι} {call : Call} {step : SocketServer × Task}
    (idle : e.threads t = .idle) (starts : call.start e.server = some step) :
    (e.become t step).Covered := by
  have kept : ∀ fd, (e.server.slot fd).Exposed →
      ∃ t', ((e.become t step).threads t').fd = some fd ∧
        ((e.become t step).threads t').adds = true := by
    intro fd before
    obtain ⟨t', on, adds⟩ := h fd before
    refine covered_become ?_ ⟨on, adds⟩
    rintro rfl
    rw [idle] at adds
    cases adds
  intro fd exposed
  rcases start_cases starts with same | ⟨fd', opening, rfl⟩
  · exact kept fd (by rwa [become, same] at exposed)
  · by_cases here : fd = fd'
    · exact ⟨t, by simp [here, Task.fd, Task.adds]⟩
    · refine kept fd ?_
      rwa [become, setSocket_other here] at exposed

theorem Covered.next (h : e.Covered) {move : Move ι} (moves : e.next move = some e')
    (spares : e.SparesSuccessor move) : e'.Covered := by
  cases move with
  | run t =>
    cases moves
    exact h.run t spares
  | call t call =>
    rw [Engine.next] at moves
    split at moves
    · rename_i idle
      obtain ⟨step, starts, rfl⟩ := Option.map_eq_some_iff.mp moves
      exact h.call idle starts
    · cases moves

end Engine

/-- Between the calls every open descriptor in `conns` is registered, in every run in which
`RemoveEvent` spares the successors of the connections that it is called for. -/
theorem registered_of_sparesSuccessor {ι : Type} [DecidableEq ι] {e : Engine ι} {tr : List (Move ι)}
    (run : ((engine ι).restrict Engine.SparesSuccessor).Run e tr) (quiet : e.Quiet) :
    e.Registered := by
  have covered : e.Covered := by
    refine run.stateInvariant (P := Engine.Covered) ?_ ?_
    · rintro e ⟨-, registered⟩ fd exposed
      exact absurd (registered fd exposed.managed exposed.opened) exposed.deaf
    · rintro e move e' before ⟨moves, spares⟩
      exact before.next moves spares
  intro fd managed opened
  by_contra deaf
  obtain ⟨t, -, adds⟩ := covered fd ⟨managed, opened, deaf⟩
  rw [quiet t] at adds
  cases adds

/-- What a call does as a whole. -/
def Call.whole (s : SocketServer) : Call → SocketServer
  | accept listenFd fd => (s.conns listenFd).elim s fun conn => s.onAccept listenFd fd conn.serviceId
  | connect fd serviceId ip => s.connect fd serviceId ip
  | closeConn fd => s.closeConn fd
  | notifyClose fd => (s.conns fd).elim s (s.notifyClose fd)

/-- A call without a step of another thread in between is the atomic one. -/
theorem call_alone {call : Call} {step : SocketServer × Task} (starts : call.start s = some step) :
    (fun step : SocketServer × Task => step.2.run step.1)^[5] step = (call.whole s, .idle) := by
  have opened : ∀ {fd opening}, openFor s fd opening = some step →
      step = (s.setSocket fd (some {}), .addConn fd opening) := by
    intro fd opening opens
    unfold openFor at opens
    split at opens
    · exact (Option.some.inj opens).symm
    · cases opens
  cases call with
  | accept listenFd fd =>
    obtain ⟨conn, listener, opens⟩ := Option.bind_eq_some_iff.mp starts
    split at opens
    · rw [opened opens, Call.whole, listener]
      have unmarked (s : SocketServer) :
          s.modConn fd (Opening.accept listenFd conn.serviceId).mark = s := by
        rw [SocketServer.modConn, show (Opening.accept listenFd conn.serviceId).mark = id from rfl,
          Option.map_id_fun, id, SocketServer.setConn, Function.update_eq_self]
      simp only [Function.iterate_succ, Function.comp, Function.iterate_zero, id, Task.run, unmarked]
      rfl
    · cases opens
  | connect fd serviceId ip =>
    rw [opened starts]
    cases ip <;> rfl
  | closeConn fd =>
    cases starts
    cases managed : (s.conns fd).isSome with
    | true => simp [Task.run, Call.whole, SocketServer.closeConn, managed]
    | false => simp [Task.run, Call.whole, SocketServer.closeConn, managed]
  | notifyClose fd =>
    obtain ⟨conn, managed, rfl⟩ := Option.map_eq_some_iff.mp starts
    rw [Call.whole, managed]
    rfl

/-- Every state of the engine with atomic calls can be the start. -/
theorem run_of_server {ι : Type} [DecidableEq ι] {s : SocketServer} {tr : List SocketOp}
    (run : socketServer.Run s tr) : (engine ι).Run ⟨s, fun _ => .idle⟩ [] := by
  refine .init ⟨fun _ => rfl, fun fd managed _ => ?_⟩
  exact (SocketServer.managed_of_run run fd).registered managed

/-- A listener on descriptor 3 and a connection on 5. -/
def accepted : Engine Bool := ⟨(SocketServer.initial.listen 3 7).onAccept 3 5 7, fun _ => .idle⟩

theorem accepted_run : (engine Bool).Run accepted [] := by
  have run₀ : socketServer.Run .initial [] := .init rfl
  have step₁ : SocketServer.Step .initial (.listen 3 7) (SocketServer.initial.listen 3 7) :=
    .listen rfl
  let conn : Conn := { type := .listen, serviceId := 7 }
  have listens : (SocketServer.initial.listen 3 7).conns 3 = some conn := rfl
  have step₂ : (SocketServer.initial.listen 3 7).Step (.accept 3 5) accepted.server :=
    .accept listens rfl rfl
  exact run_of_server ((run₀.step step₁).step step₂)

/-- One thread closes the connection on 5, and another one accepts the next one on the same number.
-/
theorem registered_accept_after_close : ∃ e tr,
    ((engine Bool).restrict Engine.SparesSuccessor).Run e tr ∧ e.Quiet ∧
      (e.server.conns 5).isSome = true ∧ e.Registered := by
  have run₀ : ((engine Bool).restrict Engine.SparesSuccessor).Run accepted [] := .init accepted_run.first
  let next (e : Engine Bool) (move : Move Bool) : Option (Engine Bool) :=
    match move with
    | .call .. => e.next move
    | .run t =>
      match e.threads t with
      | .removeEvent fd => if e.server.conns fd = none then e.next move else none
      | _ => e.next move
  let moves : List (Move Bool) := [.call true (.closeConn 5), .run true, .run true, .run true,
    .call false (.accept 3 5), .run false, .run false, .run false, .run false]
  have sound : ∀ e move e', next e move = some e' →
      ((engine Bool).restrict Engine.SparesSuccessor).step e move e' := by
    intro e move e' moves
    cases move with
    | call t call => exact ⟨moves, trivial⟩
    | run t =>
      dsimp only [next] at moves
      split at moves
      · rename_i fd removes
        split at moves
        · rename_i unmanaged
          refine ⟨moves, fun fd' removes' managed => ?_⟩
          cases removes.symm.trans removes'
          rw [unmanaged] at managed
          cases managed
        · cases moves
      · rename_i other
        exact ⟨moves, fun fd removes => absurd removes (other fd)⟩
  have steps : moves.foldlM next accepted = some ((moves.foldlM next accepted).get rfl) :=
    (Option.some_get _).symm
  have run := run₀.foldlM sound steps
  have quiet : ((moves.foldlM next accepted).get rfl).Quiet := by
    intro t
    cases t <;> rfl
  exact ⟨_, _, run, quiet, rfl, registered_of_sparesSuccessor run quiet⟩

/-- A connection is accepted on the number of one that is being closed, before `RemoveEvent`. -/
theorem not_registered_successor :
    ¬∀ (e : Engine Bool) (tr : List (Move Bool)), (engine Bool).Run e tr → e.Quiet →
      e.Registered := by
  intro claim
  let moves : List (Move Bool) := [.call true (.closeConn 5), .run true, .run true,
    .call false (.accept 3 5), .run false, .run false, .run false, .run false, .run true]
  have steps : moves.foldlM Engine.next accepted = some ((moves.foldlM Engine.next accepted).get rfl) :=
    (Option.some_get _).symm
  have run := accepted_run.foldlM (fun _ _ _ moves => moves) steps
  have quiet : ((moves.foldlM Engine.next accepted).get rfl).Quiet := by
    intro t
    cases t <;> rfl
  obtain ⟨k, socket, events⟩ := claim _ _ run quiet 5 rfl rfl
  have deaf : ((moves.foldlM Engine.next accepted).get rfl).server.sockets 5 = some {} := rfl
  cases deaf.symm.trans socket
  cases events

end Registration

end Starnet
