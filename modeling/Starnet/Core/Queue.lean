import Starnet.Core.Message

/-! The message queue of one service (`StarnetMQ`) and the global queue of services, from
`starnet_mq.cpp`. Each function is one section under the locks that the source takes for it. -/

namespace Starnet

/-- A `shared_ptr<Service>`: the position of the service object in the order of creation. -/
abbrev ServiceRef := Nat

/-- `MQ_OVERLOAD`. -/
def mqOverload : Nat := 1024

/-- `StarnetMQ`. `queueLock` is true while `Clear` holds the lock across its calls of the drop
function; the other holders keep it for one step only. -/
structure StarnetMQ where
  msgQueue : List BaseMsg := []
  queueLock : Bool := false
  inGlobal : Bool := false
  overload : Nat := 0
  overloadThreshold : Nat := mqOverload
  deriving DecidableEq, Repr

/-- The loop of `Pop` that records the length and doubles the threshold while the length exceeds
it: the recorded length and the threshold. The threshold is positive, so `length` rounds are
enough. -/
def raiseOverload (length : Nat) : Nat → Nat → Nat → Nat × Nat
  | 0, overload, threshold => (overload, threshold)
  | rounds + 1, overload, threshold =>
    if length > threshold then raiseOverload length rounds length (threshold * 2)
    else (overload, threshold)

theorem raiseOverload_le {length rounds threshold : Nat} (overload : Nat) (hpos : 0 < threshold)
    (hle : length < threshold + rounds) :
    length ≤ (raiseOverload length rounds overload threshold).2 := by
  induction rounds generalizing overload threshold with
  | zero => simp only [raiseOverload]; omega
  | succ rounds ih =>
    simp only [raiseOverload]
    split
    · exact ih length (by omega) (by omega)
    · dsimp only; omega

namespace StarnetMQ

def push (mq : StarnetMQ) (msg : BaseMsg) : StarnetMQ :=
  { mq with msgQueue := mq.msgQueue ++ [msg] }

def pop (mq : StarnetMQ) : Option BaseMsg × StarnetMQ :=
  match mq.msgQueue with
  | msg :: rest =>
    let raised := raiseOverload rest.length rest.length mq.overload mq.overloadThreshold
    (some msg, { mq with
      msgQueue := rest
      overload := raised.1
      overloadThreshold := raised.2 })
  | [] => (none, { mq with overloadThreshold := mqOverload })

def length (mq : StarnetMQ) : Nat := mq.msgQueue.length

/-- `Overload`: the recorded length, which is reset. -/
def takeOverload (mq : StarnetMQ) : Nat × StarnetMQ := (mq.overload, { mq with overload := 0 })

/-- `TryEnterGlobal`: the queue, the global queue, and whether `srv` was pushed. -/
def tryEnterGlobal (mq : StarnetMQ) (srv : ServiceRef) (globalQueue : List ServiceRef) :
    StarnetMQ × List ServiceRef × Bool :=
  if mq.inGlobal then (mq, globalQueue, false)
  else ({ mq with inGlobal := true }, globalQueue ++ [srv], true)

/-- `FinishDispatch`: the queue and the global queue. -/
def finishDispatch (mq : StarnetMQ) (srv : ServiceRef) (globalQueue : List ServiceRef) :
    StarnetMQ × List ServiceRef :=
  if mq.msgQueue = [] then ({ mq with inGlobal := false }, globalQueue)
  else (mq, globalQueue ++ [srv])

/-- `Clear` takes the lock. -/
def lockQueue (mq : StarnetMQ) : StarnetMQ := { mq with queueLock := true }

/-- One round of the loop of `Clear` removes the front message. -/
def dropFront (mq : StarnetMQ) : StarnetMQ := { mq with msgQueue := mq.msgQueue.tail }

/-- `Clear` releases the lock. -/
def unlockQueue (mq : StarnetMQ) : StarnetMQ := { mq with queueLock := false }

section

variable (mq : StarnetMQ) (msg : BaseMsg) (srv : ServiceRef) (globalQueue : List ServiceRef)

@[simp] theorem push_msgQueue : (mq.push msg).msgQueue = mq.msgQueue ++ [msg] := rfl
@[simp] theorem push_queueLock : (mq.push msg).queueLock = mq.queueLock := rfl
@[simp] theorem push_inGlobal : (mq.push msg).inGlobal = mq.inGlobal := rfl

@[simp] theorem pop_queueLock : mq.pop.2.queueLock = mq.queueLock := by
  unfold pop; split <;> rfl

@[simp] theorem pop_inGlobal : mq.pop.2.inGlobal = mq.inGlobal := by
  unfold pop; split <;> rfl

@[simp] theorem takeOverload_msgQueue : mq.takeOverload.2.msgQueue = mq.msgQueue := rfl
@[simp] theorem takeOverload_queueLock : mq.takeOverload.2.queueLock = mq.queueLock := rfl
@[simp] theorem takeOverload_inGlobal : mq.takeOverload.2.inGlobal = mq.inGlobal := rfl

@[simp] theorem tryEnterGlobal_msgQueue :
    (mq.tryEnterGlobal srv globalQueue).1.msgQueue = mq.msgQueue := by
  unfold tryEnterGlobal; split <;> rfl

@[simp] theorem tryEnterGlobal_queueLock :
    (mq.tryEnterGlobal srv globalQueue).1.queueLock = mq.queueLock := by
  unfold tryEnterGlobal; split <;> rfl

@[simp] theorem tryEnterGlobal_inGlobal :
    (mq.tryEnterGlobal srv globalQueue).1.inGlobal = true := by
  unfold tryEnterGlobal; split
  · assumption
  · rfl

@[simp] theorem finishDispatch_msgQueue :
    (mq.finishDispatch srv globalQueue).1.msgQueue = mq.msgQueue := by
  unfold finishDispatch; split <;> rfl

@[simp] theorem finishDispatch_queueLock :
    (mq.finishDispatch srv globalQueue).1.queueLock = mq.queueLock := by
  unfold finishDispatch; split <;> rfl

@[simp] theorem lockQueue_msgQueue : mq.lockQueue.msgQueue = mq.msgQueue := rfl
@[simp] theorem lockQueue_inGlobal : mq.lockQueue.inGlobal = mq.inGlobal := rfl
@[simp] theorem lockQueue_queueLock : mq.lockQueue.queueLock = true := rfl
@[simp] theorem dropFront_msgQueue : mq.dropFront.msgQueue = mq.msgQueue.tail := rfl
@[simp] theorem dropFront_inGlobal : mq.dropFront.inGlobal = mq.inGlobal := rfl
@[simp] theorem dropFront_queueLock : mq.dropFront.queueLock = mq.queueLock := rfl
@[simp] theorem unlockQueue_msgQueue : mq.unlockQueue.msgQueue = mq.msgQueue := rfl
@[simp] theorem unlockQueue_inGlobal : mq.unlockQueue.inGlobal = mq.inGlobal := rfl
@[simp] theorem unlockQueue_queueLock : mq.unlockQueue.queueLock = false := rfl

end

/-- `Pop` takes the front message, if there is one. -/
theorem pop_some {mq : StarnetMQ} {msg : BaseMsg} (h : mq.pop.1 = some msg) :
    mq.msgQueue = msg :: mq.pop.2.msgQueue := by
  unfold pop at h ⊢
  split at h
  · rename_i front rest queue
    cases h
    simp [queue]
  · contradiction

theorem pop_none {mq : StarnetMQ} (h : mq.pop.1 = none) :
    mq.msgQueue = [] ∧ mq.pop.2.msgQueue = [] := by
  unfold pop at h ⊢
  split at h
  · contradiction
  · rename_i queue
    simp [queue]

end StarnetMQ

end Starnet
