import Mathlib.Logic.Function.Basic
import Starnet.Core.Queue

/-! The state that the threads of a node share (`starnet.cpp`, `starnet_mq.cpp`,
`starnet_start.cpp`, `starnet_handle.cpp`) and the points at which the workers, the calls of `Send`
and `KillService`, and the main thread stand between two sections under a lock. -/

namespace Starnet.Core

/-- Where `NewService` stands with a service: not yet created, in the services map, inside
`OnInit`, or past it. -/
inductive InitPhase
  | unborn
  | inserted
  | running
  | returned
  deriving DecidableEq, Repr

/-- A `Service` object. -/
structure Service where
  id : UInt32 := 0
  phase : InitPhase := .unborn
  isExiting : Bool := false
  exited : Bool := false
  mq : StarnetMQ := {}
  deriving DecidableEq, Repr

/-- The next step of a call of `Starnet::Send` or `Starnet::KillService`; both end in
`StarnetStart::CheckAndWeakUp` when they push the service. -/
inductive CallPc
  | idle
  | sendGet (toId : UInt32) (msg : BaseMsg)
  | sendPush (srv : ServiceRef) (msg : BaseMsg)
  | sendEnter (srv : ServiceRef)
  | killGet (id : UInt32)
  | killErase (id : UInt32) (srv : ServiceRef)
  | killName (id : UInt32) (srv : ServiceRef)
  | killMark (srv : ServiceRef)
  | killRead (srv : ServiceRef)
  | killEnter (srv : ServiceRef)
  | wakeTest
  | wakeCount
  | wakeLength (sleepCount : Nat)
  | wakeSignal
  deriving DecidableEq, Repr

/-- The service whose pointer a call holds. -/
def CallPc.target : CallPc → Option ServiceRef
  | sendPush srv _ | sendEnter srv | killErase _ srv | killName _ srv | killMark srv
  | killRead srv | killEnter srv => some srv
  | _ => none

/-- The next step of a worker in `Worker::operator()`. In `readLength` and later states the worker
holds a service that it popped from the global queue. -/
inductive WorkerPc
  | popGlobal
  | readExit
  | lockSleep
  | condWait
  | blocked
  | woken
  | left
  | readLength (srv : ServiceRef)
  | process (srv : ServiceRef) (rounds : Nat)
  | readOverload (srv : ServiceRef) (rounds : Nat) (msg : BaseMsg)
  | onMsg (srv : ServiceRef) (rounds : Nat) (msg : BaseMsg)
  | testExiting (srv : ServiceRef)
  | finish (srv : ServiceRef)
  | onExit (srv : ServiceRef)
  | clear (srv : ServiceRef)
  | clearSend (srv : ServiceRef) (call : Nat)
  deriving DecidableEq, Repr

/-- The next step of the main thread in `StarnetStart::Wait`. -/
inductive MainPc
  | waiting
  | killing (ids : List UInt32)
  | killCall (ids : List UInt32) (call : Nat)
  | wakeAll
  | join
  deriving DecidableEq, Repr

namespace WorkerPc

/-- The service that a worker took from the global queue and has not given up. -/
def held : WorkerPc → Option ServiceRef
  | readLength srv | process srv _ | readOverload srv _ _ | onMsg srv _ _ | testExiting srv
  | finish srv | onExit srv | clear srv | clearSend srv _ => some srv
  | _ => none

/-- The service that a worker holds and whose `isExiting` it has not tested yet. -/
def untested : WorkerPc → Option ServiceRef
  | readLength srv | process srv _ | readOverload srv _ _ | onMsg srv _ _ | testExiting srv =>
    some srv
  | _ => none

/-- The service whose exit path a worker runs. -/
def exiting : WorkerPc → Option ServiceRef
  | onExit srv | clear srv | clearSend srv _ => some srv
  | _ => none

/-- The service whose Lua code a worker executes. -/
def executing : WorkerPc → Option ServiceRef
  | onMsg srv _ _ | onExit srv => some srv
  | _ => none

end WorkerPc

/-- The state of a node with `n` workers. -/
structure State (n : Nat) where
  services : List (UInt32 × ServiceRef)
  maxId : UInt32
  nextRef : ServiceRef
  srv : ServiceRef → Service
  nameMap : List (String × UInt32)
  globalQueue : List ServiceRef
  sleepCount : Nat
  sleepMtx : Option (Fin n)
  exitFlag : Bool
  worker : Fin n → WorkerPc
  call : Nat → CallPc
  main : MainPc

namespace State

variable {n : Nat}

/-- The state after `Starnet::Start`, before the first `NewService`. -/
def initial (n : Nat) : State n where
  services := []
  maxId := 0
  nextRef := 0
  srv _ := {}
  nameMap := []
  globalQueue := []
  sleepCount := 0
  sleepMtx := none
  exitFlag := false
  worker _ := .popGlobal
  call _ := .idle
  main := .waiting

def setCall (σ : State n) (k : Nat) (pc : CallPc) : State n :=
  { σ with call := Function.update σ.call k pc }

def setWorker (σ : State n) (w : Fin n) (pc : WorkerPc) : State n :=
  { σ with worker := Function.update σ.worker w pc }

def modService (σ : State n) (r : ServiceRef) (f : Service → Service) : State n :=
  { σ with srv := Function.update σ.srv r (f (σ.srv r)) }

def modQueue (σ : State n) (r : ServiceRef) (f : StarnetMQ → StarnetMQ) : State n :=
  σ.modService r fun s => { s with mq := f s.mq }

/-- `Starnet::GetService`: `services.find(id)`. -/
def getService (σ : State n) (id : UInt32) : Option ServiceRef := σ.services.lookup id

/-- The part of `NewService` under `servicesLock`: the id is `++maxId` and `emplace` keeps an entry
that the map already has for it. -/
def newService (σ : State n) : State n :=
  let id := σ.maxId + 1
  { σ with
    maxId := id
    nextRef := σ.nextRef + 1
    services := if (σ.services.lookup id).isSome then σ.services
      else σ.services ++ [(id, σ.nextRef)]
    srv := Function.update σ.srv σ.nextRef { id, phase := .inserted } }

/-- `services.erase(id)`. -/
def eraseService (σ : State n) (id : UInt32) : State n :=
  { σ with services := σ.services.filter fun entry => entry.1 ≠ id }

/-- `starnet_handle_namehandle`: a name in use keeps its handle. -/
def nameHandle (σ : State n) (handle : UInt32) (name : String) : State n :=
  { σ with nameMap := if (σ.nameMap.lookup name).isSome then σ.nameMap
      else σ.nameMap ++ [(name, handle)] }

/-- `starnet_handle_removename`. -/
def removeName (σ : State n) (handle : UInt32) : State n :=
  { σ with nameMap := σ.nameMap.filter fun entry => entry.2 ≠ handle }

/-- `TryEnterGlobal` on service `r`. -/
def tryEnterGlobal (σ : State n) (r : ServiceRef) : State n :=
  let entered := (σ.srv r).mq.tryEnterGlobal r σ.globalQueue
  { σ.modQueue r fun _ => entered.1 with globalQueue := entered.2.1 }

/-- What follows `TryEnterGlobal` in `Send` and `KillService`: `CheckAndWeakUp` if it pushed. -/
def afterEnter (σ : State n) (r : ServiceRef) : CallPc :=
  if ((σ.srv r).mq.tryEnterGlobal r σ.globalQueue).2.2 then .wakeTest else .idle

/-- `FinishDispatch` on service `r`. -/
def finishDispatch (σ : State n) (r : ServiceRef) : State n :=
  let finished := (σ.srv r).mq.finishDispatch r σ.globalQueue
  { σ.modQueue r fun _ => finished.1 with globalQueue := finished.2 }

/-- `pthread_cond_broadcast`: every waiter is woken. -/
def broadcast (σ : State n) : State n :=
  { σ with worker := fun w => if σ.worker w = .blocked then .woken else σ.worker w }

/-! ### Fields of the updates -/

section Fields

variable (σ : State n) (k : Nat) (w : Fin n) (r : ServiceRef) (f : Service → Service)

@[simp] theorem setCall_services (pc : CallPc) : (σ.setCall k pc).services = σ.services := rfl
@[simp] theorem setCall_nextRef (pc : CallPc) : (σ.setCall k pc).nextRef = σ.nextRef := rfl
@[simp] theorem setCall_srv (pc : CallPc) : (σ.setCall k pc).srv = σ.srv := rfl
@[simp] theorem setCall_globalQueue (pc : CallPc) : (σ.setCall k pc).globalQueue = σ.globalQueue := rfl
@[simp] theorem setCall_sleepCount (pc : CallPc) : (σ.setCall k pc).sleepCount = σ.sleepCount := rfl
@[simp] theorem setCall_sleepMtx (pc : CallPc) : (σ.setCall k pc).sleepMtx = σ.sleepMtx := rfl
@[simp] theorem setCall_exitFlag (pc : CallPc) : (σ.setCall k pc).exitFlag = σ.exitFlag := rfl
@[simp] theorem setCall_worker (pc : CallPc) : (σ.setCall k pc).worker = σ.worker := rfl
@[simp] theorem setCall_main (pc : CallPc) : (σ.setCall k pc).main = σ.main := rfl

@[simp] theorem setWorker_services (pc : WorkerPc) : (σ.setWorker w pc).services = σ.services := rfl
@[simp] theorem setWorker_nextRef (pc : WorkerPc) : (σ.setWorker w pc).nextRef = σ.nextRef := rfl
@[simp] theorem setWorker_srv (pc : WorkerPc) : (σ.setWorker w pc).srv = σ.srv := rfl
@[simp] theorem setWorker_globalQueue (pc : WorkerPc) : (σ.setWorker w pc).globalQueue = σ.globalQueue := rfl
@[simp] theorem setWorker_sleepCount (pc : WorkerPc) : (σ.setWorker w pc).sleepCount = σ.sleepCount := rfl
@[simp] theorem setWorker_sleepMtx (pc : WorkerPc) : (σ.setWorker w pc).sleepMtx = σ.sleepMtx := rfl
@[simp] theorem setWorker_exitFlag (pc : WorkerPc) : (σ.setWorker w pc).exitFlag = σ.exitFlag := rfl
@[simp] theorem setWorker_call (pc : WorkerPc) : (σ.setWorker w pc).call = σ.call := rfl
@[simp] theorem setWorker_main (pc : WorkerPc) : (σ.setWorker w pc).main = σ.main := rfl

@[simp] theorem modService_services : (σ.modService r f).services = σ.services := rfl
@[simp] theorem modService_nextRef : (σ.modService r f).nextRef = σ.nextRef := rfl
@[simp] theorem modService_globalQueue : (σ.modService r f).globalQueue = σ.globalQueue := rfl
@[simp] theorem modService_sleepCount : (σ.modService r f).sleepCount = σ.sleepCount := rfl
@[simp] theorem modService_sleepMtx : (σ.modService r f).sleepMtx = σ.sleepMtx := rfl
@[simp] theorem modService_exitFlag : (σ.modService r f).exitFlag = σ.exitFlag := rfl
@[simp] theorem modService_worker : (σ.modService r f).worker = σ.worker := rfl
@[simp] theorem modService_call : (σ.modService r f).call = σ.call := rfl
@[simp] theorem modService_main : (σ.modService r f).main = σ.main := rfl

@[simp] theorem setCall_call_same (pc : CallPc) : (σ.setCall k pc).call k = pc :=
  Function.update_self ..

theorem setCall_call_other {k' : Nat} (pc : CallPc) (h : k' ≠ k) :
    (σ.setCall k pc).call k' = σ.call k' := Function.update_of_ne h ..

@[simp] theorem setWorker_worker_same (pc : WorkerPc) : (σ.setWorker w pc).worker w = pc :=
  Function.update_self ..

theorem setWorker_worker_other {w' : Fin n} (pc : WorkerPc) (h : w' ≠ w) :
    (σ.setWorker w pc).worker w' = σ.worker w' := Function.update_of_ne h ..

@[simp] theorem modService_srv_same : (σ.modService r f).srv r = f (σ.srv r) :=
  Function.update_self ..

theorem modService_srv_other {r' : ServiceRef} (h : r' ≠ r) :
    (σ.modService r f).srv r' = σ.srv r' := Function.update_of_ne h ..

/-- A step of worker `w` that keeps what `g` reads of its control state keeps it for every
worker. -/
theorem setWorker_keeps {β : Type} {g : WorkerPc → β} {pc : WorkerPc} (h : g pc = g (σ.worker w))
    (w' : Fin n) : g ((σ.setWorker w pc).worker w') = g (σ.worker w') := by
  by_cases same : w' = w
  · subst same; rw [setWorker_worker_same, h]
  · rw [setWorker_worker_other _ _ _ same]

theorem setWorker_iff {p : WorkerPc → Prop} {pc : WorkerPc} (h : p pc ↔ p (σ.worker w))
    (w' : Fin n) : p ((σ.setWorker w pc).worker w') ↔ p (σ.worker w') := by
  by_cases same : w' = w
  · subst same; rw [setWorker_worker_same, h]
  · rw [setWorker_worker_other _ _ _ same]

theorem setCall_iff {p : CallPc → Prop} {pc : CallPc} (h : p pc ↔ p (σ.call k)) (k' : Nat) :
    p ((σ.setCall k pc).call k') ↔ p (σ.call k') := by
  by_cases same : k' = k
  · subst same; rw [setCall_call_same, h]
  · rw [setCall_call_other _ _ _ same]

/-- A change of service `r` that keeps what `g` reads of it keeps it for every service. -/
theorem modService_keeps {β : Type} {g : Service → β} {f : Service → Service}
    (h : g (f (σ.srv r)) = g (σ.srv r)) (r' : ServiceRef) :
    g ((σ.modService r f).srv r') = g (σ.srv r') := by
  by_cases same : r' = r
  · subst same; rw [modService_srv_same, h]
  · rw [modService_srv_other _ _ _ same]

end Fields

/-! ### `TryEnterGlobal` and `FinishDispatch` by cases -/

theorem tryEnterGlobal_inside {σ : State n} {r : ServiceRef} (h : (σ.srv r).mq.inGlobal = true) :
    σ.tryEnterGlobal r = σ := by
  simp [tryEnterGlobal, StarnetMQ.tryEnterGlobal, h, modQueue, modService]

theorem tryEnterGlobal_outside {σ : State n} {r : ServiceRef}
    (h : (σ.srv r).mq.inGlobal = false) :
    σ.tryEnterGlobal r = { σ.modQueue r fun mq => { mq with inGlobal := true } with
      globalQueue := σ.globalQueue ++ [r] } := by
  simp [tryEnterGlobal, StarnetMQ.tryEnterGlobal, h, modQueue, modService]

theorem afterEnter_inside {σ : State n} {r : ServiceRef} (h : (σ.srv r).mq.inGlobal = true) :
    σ.afterEnter r = .idle := by
  simp [afterEnter, StarnetMQ.tryEnterGlobal, h]

theorem afterEnter_outside {σ : State n} {r : ServiceRef} (h : (σ.srv r).mq.inGlobal = false) :
    σ.afterEnter r = .wakeTest := by
  simp [afterEnter, StarnetMQ.tryEnterGlobal, h]

theorem finishDispatch_empty {σ : State n} {r : ServiceRef} (h : (σ.srv r).mq.msgQueue = []) :
    σ.finishDispatch r = σ.modQueue r fun mq => { mq with inGlobal := false } := by
  simp [finishDispatch, StarnetMQ.finishDispatch, h, modQueue, modService]

theorem finishDispatch_nonempty {σ : State n} {r : ServiceRef}
    (h : (σ.srv r).mq.msgQueue ≠ []) :
    σ.finishDispatch r = { σ with globalQueue := σ.globalQueue ++ [r] } := by
  simp [finishDispatch, StarnetMQ.finishDispatch, h, modQueue, modService]

end State

/-- The weight table of `StartWorker`. -/
def weightTable : List Int :=
  [-1, -1, -1, -1, 0, 0, 0, 0, 1, 1, 1, 1, 1, 1, 1, 1, 2, 2, 2, 2, 2, 2, 2, 2,
    3, 3, 3, 3, 3, 3, 3, 3]

/-- The weight of worker `i`; a worker past the table has weight 0. -/
def weight (i : Nat) : Int := weightTable.getD i 0

/-- The number of messages of one turn: `1`, or `Length() >> weight` when the weight is not
negative. -/
def batch (weight : Int) (length : Nat) : Nat :=
  if 0 ≤ weight then length >>> weight.toNat else 1

end Starnet.Core
