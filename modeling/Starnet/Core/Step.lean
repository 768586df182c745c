import Starnet.Core.State
import Starnet.Lib.Transition

/-! The steps of the threads of a node. Each step is one section under a lock, one access to a
shared variable that has no lock, or the start or end of a Lua call. Lua code may start a call of
`NewService`, `Send` or `KillService` at any time, and so may the timer and the socket thread, so
these start in every state. -/

namespace Starnet.Core

/-- What a step reports to the trace. -/
inductive Event (n : Nat)
  | tau
  | created (srv : ServiceRef)
  | found (call : Nat) (srv : ServiceRef) (msg : BaseMsg)
  | push (call : Nat) (srv : ServiceRef) (msg : BaseMsg)
  | readInGlobal (call : Nat) (srv : ServiceRef)
  | readSleepCount (call : Nat)
  | take (w : Fin n) (srv : ServiceRef)
  | process (w : Fin n) (srv : ServiceRef) (msg : BaseMsg)
  | overload (w : Fin n) (srv : ServiceRef) (length : Nat)
  | exit (w : Fin n) (srv : ServiceRef)
  | drop (w : Fin n) (srv : ServiceRef) (msg : BaseMsg)
  | cleared (w : Fin n) (srv : ServiceRef)
  | broadcast
  deriving DecidableEq, Repr

variable {n : Nat}

/-- `NewService` and the naming of services. -/
inductive ServiceStep : State n → Event n → State n → Prop
  | newService (σ : State n) : ServiceStep σ (.created σ.nextRef) σ.newService
  | onInit {σ : State n} {r} (h : (σ.srv r).phase = .inserted) :
      ServiceStep σ .tau (σ.modService r fun s => { s with phase := .running })
  | onInitReturn {σ : State n} {r} (h : (σ.srv r).phase = .running) :
      ServiceStep σ .tau (σ.modService r fun s => { s with phase := .returned })
  | nameService (σ : State n) (handle : UInt32) (name : String) :
      ServiceStep σ .tau (σ.nameHandle handle name)

/-- Calls of `Starnet::Send` and `Starnet::KillService`. -/
inductive CallStep : State n → Event n → State n → Prop
  | send {σ : State n} {k} (toId : UInt32) (msg : BaseMsg) (h : σ.call k = .idle) :
      CallStep σ .tau (σ.setCall k (.sendGet toId msg))
  | sendFound {σ : State n} {k toId msg r} (h : σ.call k = .sendGet toId msg)
      (found : σ.getService toId = some r) :
      CallStep σ (.found k r msg) (σ.setCall k (.sendPush r msg))
  | sendMissed {σ : State n} {k toId msg} (h : σ.call k = .sendGet toId msg)
      (missed : σ.getService toId = none) : CallStep σ .tau (σ.setCall k .idle)
  | sendPush {σ : State n} {k r msg} (h : σ.call k = .sendPush r msg)
      (free : (σ.srv r).mq.queueLock = false) :
      CallStep σ (.push k r msg) ((σ.modQueue r fun mq => mq.push msg).setCall k (.sendEnter r))
  | sendEnter {σ : State n} {k r} (h : σ.call k = .sendEnter r) :
      CallStep σ .tau ((σ.tryEnterGlobal r).setCall k (σ.afterEnter r))
  | kill {σ : State n} {k} (id : UInt32) (h : σ.call k = .idle) :
      CallStep σ .tau (σ.setCall k (.killGet id))
  | killFound {σ : State n} {k id r} (h : σ.call k = .killGet id)
      (found : σ.getService id = some r) : CallStep σ .tau (σ.setCall k (.killErase id r))
  | killMissed {σ : State n} {k id} (h : σ.call k = .killGet id)
      (missed : σ.getService id = none) : CallStep σ .tau (σ.setCall k .idle)
  | killErase {σ : State n} {k id r} (h : σ.call k = .killErase id r) :
      CallStep σ .tau ((σ.eraseService id).setCall k (.killName id r))
  | killName {σ : State n} {k id r} (h : σ.call k = .killName id r) :
      CallStep σ .tau ((σ.removeName id).setCall k (.killMark r))
  | killMark {σ : State n} {k r} (h : σ.call k = .killMark r) :
      CallStep σ .tau
        ((σ.modService r fun s => { s with isExiting := true }).setCall k (.killRead r))
  | killRead {σ : State n} {k r} (h : σ.call k = .killRead r) :
      CallStep σ (.readInGlobal k r)
        (σ.setCall k (if (σ.srv r).mq.inGlobal then .idle else .killEnter r))
  | killEnter {σ : State n} {k r} (h : σ.call k = .killEnter r) :
      CallStep σ .tau ((σ.tryEnterGlobal r).setCall k (σ.afterEnter r))

/-- `StarnetStart::CheckAndWeakUp`, which reads `sleepCount` twice and without the mutex. -/
inductive WakeStep : State n → Event n → State n → Prop
  | wakeTest {σ : State n} {k} (h : σ.call k = .wakeTest) :
      WakeStep σ (.readSleepCount k)
        (σ.setCall k (if σ.sleepCount = 0 then .idle else .wakeCount))
  | wakeCount {σ : State n} {k} (h : σ.call k = .wakeCount) :
      WakeStep σ .tau (σ.setCall k (.wakeLength σ.sleepCount))
  | wakeLength {σ : State n} {k sleepCount} (h : σ.call k = .wakeLength sleepCount) :
      WakeStep σ .tau
        (σ.setCall k (if n - sleepCount ≤ σ.globalQueue.length then .wakeSignal else .idle))
  | wakeSignal {σ : State n} {k w} (h : σ.call k = .wakeSignal) (waits : σ.worker w = .blocked) :
      WakeStep σ .tau ((σ.setWorker w .woken).setCall k .idle)
  | wakeNone {σ : State n} {k} (h : σ.call k = .wakeSignal)
      (none : ∀ w, σ.worker w ≠ .blocked) : WakeStep σ .tau (σ.setCall k .idle)

/-- The workers outside a turn: the global queue, the exit flag and `WorkerWait`. A waiter may
wake without a signal. -/
inductive SleepStep : State n → Event n → State n → Prop
  | take {σ : State n} {w r rest} (h : σ.worker w = .popGlobal)
      (queue : σ.globalQueue = r :: rest) :
      SleepStep σ (.take w r) ({ σ with globalQueue := rest }.setWorker w (.readLength r))
  | takeNone {σ : State n} {w} (h : σ.worker w = .popGlobal) (queue : σ.globalQueue = []) :
      SleepStep σ .tau (σ.setWorker w .readExit)
  | readExit {σ : State n} {w} (h : σ.worker w = .readExit) :
      SleepStep σ .tau (σ.setWorker w (if σ.exitFlag then .left else .lockSleep))
  | lockSleep {σ : State n} {w} (h : σ.worker w = .lockSleep) (free : σ.sleepMtx = none) :
      SleepStep σ .tau
        ({ σ with sleepMtx := some w, sleepCount := σ.sleepCount + 1 }.setWorker w .condWait)
  | condWait {σ : State n} {w} (h : σ.worker w = .condWait) :
      SleepStep σ .tau ({ σ with sleepMtx := none }.setWorker w .blocked)
  | spurious {σ : State n} {w} (h : σ.worker w = .blocked) :
      SleepStep σ .tau (σ.setWorker w .woken)
  | resume {σ : State n} {w} (h : σ.worker w = .woken) (free : σ.sleepMtx = none) :
      SleepStep σ .tau ({ σ with sleepCount := σ.sleepCount - 1 }.setWorker w .popGlobal)

/-- The turn of a worker with a service: `ProcessMsgs` and `CheckAndPutGlobal`. No other thread
uses `exited`, so its exchange belongs to the step that reads `isExiting`. -/
inductive TurnStep : State n → Event n → State n → Prop
  | readLength {σ : State n} {w r} (h : σ.worker w = .readLength r)
      (free : (σ.srv r).mq.queueLock = false) :
      TurnStep σ .tau (σ.setWorker w (.process r (batch (weight w) (σ.srv r).mq.length)))
  | processDone {σ : State n} {w r} (h : σ.worker w = .process r 0) :
      TurnStep σ .tau (σ.setWorker w (.testExiting r))
  | processPop {σ : State n} {w r i msg} (h : σ.worker w = .process r (i + 1))
      (free : (σ.srv r).mq.queueLock = false) (popped : (σ.srv r).mq.pop.1 = some msg) :
      TurnStep σ (.process w r msg)
        ((σ.modQueue r fun mq => mq.pop.2).setWorker w (.readOverload r i msg))
  | processNone {σ : State n} {w r i} (h : σ.worker w = .process r (i + 1))
      (free : (σ.srv r).mq.queueLock = false) (popped : (σ.srv r).mq.pop.1 = none) :
      TurnStep σ .tau ((σ.modQueue r fun mq => mq.pop.2).setWorker w (.testExiting r))
  | readOverload {σ : State n} {w r i msg} (h : σ.worker w = .readOverload r i msg)
      (free : (σ.srv r).mq.queueLock = false) :
      TurnStep σ (.overload w r (σ.srv r).mq.takeOverload.1)
        ((σ.modQueue r fun mq => mq.takeOverload.2).setWorker w (.onMsg r i msg))
  | onMsgReturn {σ : State n} {w r i msg} (h : σ.worker w = .onMsg r i msg) :
      TurnStep σ .tau (σ.setWorker w (.process r i))
  | testLive {σ : State n} {w r} (h : σ.worker w = .testExiting r)
      (live : (σ.srv r).isExiting = false) : TurnStep σ .tau (σ.setWorker w (.finish r))
  | testExiting {σ : State n} {w r} (h : σ.worker w = .testExiting r)
      (exiting : (σ.srv r).isExiting = true) (first : (σ.srv r).exited = false) :
      TurnStep σ (.exit w r)
        ((σ.modService r fun s => { s with exited := true }).setWorker w (.onExit r))
  | testExited {σ : State n} {w r} (h : σ.worker w = .testExiting r)
      (exiting : (σ.srv r).isExiting = true) (again : (σ.srv r).exited = true) :
      TurnStep σ .tau (σ.setWorker w .popGlobal)
  | finish {σ : State n} {w r} (h : σ.worker w = .finish r)
      (free : (σ.srv r).mq.queueLock = false) :
      TurnStep σ .tau ((σ.finishDispatch r).setWorker w .popGlobal)
  | onExitReturn {σ : State n} {w r} (h : σ.worker w = .onExit r)
      (free : (σ.srv r).mq.queueLock = false) :
      TurnStep σ .tau ((σ.modQueue r fun mq => mq.lockQueue).setWorker w (.clear r))
  | clearDrop {σ : State n} {w r msg rest} (h : σ.worker w = .clear r)
      (queue : (σ.srv r).mq.msgQueue = msg :: rest) (silent : dropMessage msg = none) :
      TurnStep σ (.drop w r msg) (σ.modQueue r fun mq => mq.dropFront)
  | clearSend {σ : State n} {w r msg rest toId err k} (h : σ.worker w = .clear r)
      (queue : (σ.srv r).mq.msgQueue = msg :: rest) (answer : dropMessage msg = some (toId, err))
      (idle : σ.call k = .idle) :
      TurnStep σ (.drop w r msg)
        (((σ.modQueue r fun mq => mq.dropFront).setCall k (.sendGet toId err)).setWorker w
          (.clearSend r k))
  | clearResume {σ : State n} {w r k} (h : σ.worker w = .clearSend r k)
      (idle : σ.call k = .idle) : TurnStep σ .tau (σ.setWorker w (.clear r))
  | clearDone {σ : State n} {w r} (h : σ.worker w = .clear r)
      (queue : (σ.srv r).mq.msgQueue = []) :
      TurnStep σ (.cleared w r)
        ((σ.modQueue r fun mq => mq.unlockQueue).setWorker w .popGlobal)

/-- The main thread in `StarnetStart::Wait` after an exit request. `KillAllServices` kills the
services of a snapshot of the map, in the order of the map's iterator. -/
inductive MainStep : State n → Event n → State n → Prop
  | killAll {σ : State n} {ids : List UInt32} (h : σ.main = .waiting)
      (snapshot : ids.Perm (σ.services.map Prod.fst)) :
      MainStep σ .tau { σ with main := .killing ids }
  | killNext {σ : State n} {id ids k} (h : σ.main = .killing (id :: ids))
      (idle : σ.call k = .idle) :
      MainStep σ .tau ({ σ with main := .killCall ids k }.setCall k (.killGet id))
  | killReturn {σ : State n} {ids k} (h : σ.main = .killCall ids k) (idle : σ.call k = .idle) :
      MainStep σ .tau { σ with main := .killing ids }
  | setExit {σ : State n} (h : σ.main = .killing []) :
      MainStep σ .tau { σ with exitFlag := true, main := .wakeAll }
  | wakeAll {σ : State n} (h : σ.main = .wakeAll) (free : σ.sleepMtx = none) :
      MainStep σ .broadcast { σ.broadcast with main := .join }

/-- One step of a node. -/
inductive Step (σ : State n) (e : Event n) (σ' : State n) : Prop
  | service (h : ServiceStep σ e σ')
  | call (h : CallStep σ e σ')
  | wake (h : WakeStep σ e σ')
  | sleep (h : SleepStep σ e σ')
  | turn (h : TurnStep σ e σ')
  | main (h : MainStep σ e σ')

/-- A node with `n` workers. -/
def node (n : Nat) : Transition.System (State n) (Event n) where
  init σ := σ = State.initial n
  step := Step

end Starnet.Core
