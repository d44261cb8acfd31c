import Gpui.Lib.Machine
import Gpui.Scheduler.Priority

/-! # The priority queue: the model

    A queue with one sender and any number of receivers, on other threads.  What a thread
    does while it holds the lock of the queues is one step, with one exception: a receiver
    that found the queues empty reads the number of senders before it waits, and the
    sender can be dropped in between. -/

namespace Gpui

/-- The ways the queue can panic. -/
inductive QueuePanic where
  /-- "Realtime audio priority runs on a dedicated thread and is never queued". -/
  | realtimeAudio
  /-- `random_ratio` is called with a ratio that is no probability. -/
  | noProbability
  /-- The mass that is left is below the weight taken from it. -/
  | massUnderflow
  /-- The `unwrap` of `pop`. -/
  | unwrapNone
deriving DecidableEq, Repr

structure RecvError where
deriving DecidableEq, Repr

/-! ### The queues -/

structure PriorityQueues (T : Type) where
  highPriority : List T
  mediumPriority : List T
  lowPriority : List T
deriving DecidableEq

namespace PriorityQueues

variable {T : Type}

def new : PriorityQueues T := ⟨[], [], []⟩

def isEmpty (queues : PriorityQueues T) : Bool :=
  queues.highPriority.isEmpty && queues.mediumPriority.isEmpty && queues.lowPriority.isEmpty

/-- The queue of a priority. -/
def queue (queues : PriorityQueues T) : Priority → List T
  | .realtimeAudio => []
  | .high          => queues.highPriority
  | .medium        => queues.mediumPriority
  | .low           => queues.lowPriority

def push (queues : PriorityQueues T) (priority : Priority) (item : T) :
    Except QueuePanic (PriorityQueues T) :=
  match priority with
  | .realtimeAudio => .error .realtimeAudio
  | .high   => .ok { queues with highPriority := queues.highPriority ++ [item] }
  | .medium => .ok { queues with mediumPriority := queues.mediumPriority ++ [item] }
  | .low    => .ok { queues with lowPriority := queues.lowPriority ++ [item] }

/-! ### The loaded die -/

/-- `random_ratio`.  The coin is what the generator would say; where the ratio is one it
    has no say. -/
def randomRatio (numerator denominator : Nat) (coin : Bool) : Except QueuePanic Bool :=
  if numerator = 0 ∨ denominator < numerator then .error .noProbability
  else .ok (numerator = denominator || coin)

/-- `mass -= weight`. -/
def subMass (mass weight : Nat) : Except QueuePanic Nat :=
  if mass < weight then .error .massUnderflow else .ok (mass - weight)

/-- What a draw takes out, with the queue it was in, and what it leaves. -/
abbrev Drawn (T : Type) := Option (Priority × T) × PriorityQueues T

def drawLow (queues : PriorityQueues T) (coin : Priority → Bool) (mass : Nat) :
    Except QueuePanic (Drawn T) :=
  match queues.lowPriority with
  | [] => .ok (none, queues)
  | item :: rest => do
      let flip ← randomRatio Priority.low.weight mass (coin .low)
      if flip then .ok (some (.low, item), { queues with lowPriority := rest })
      -- the mass is not used any more
      else .ok (none, queues)

def drawMedium (queues : PriorityQueues T) (coin : Priority → Bool) (mass : Nat) :
    Except QueuePanic (Drawn T) :=
  match queues.mediumPriority with
  | [] => drawLow queues coin mass
  | item :: rest => do
      let flip ← randomRatio Priority.medium.weight mass (coin .medium)
      if flip then .ok (some (.medium, item), { queues with mediumPriority := rest })
      else subMass mass Priority.medium.weight >>= drawLow queues coin

def drawHigh (queues : PriorityQueues T) (coin : Priority → Bool) (mass : Nat) :
    Except QueuePanic (Drawn T) :=
  match queues.highPriority with
  | [] => drawMedium queues coin mass
  | item :: rest => do
      let flip ← randomRatio Priority.high.weight mass (coin .high)
      if flip then .ok (some (.high, item), { queues with highPriority := rest })
      else subMass mass Priority.high.weight >>= drawMedium queues coin

/-- The weight of a queue that has an item. -/
def weightOf (queues : PriorityQueues T) (priority : Priority) : Nat :=
  priority.weight * (!(queues.queue priority).isEmpty).toNat

/-- The draws of `pop_inner` and of `spin_try_pop`, with the coin of each queue. -/
def draw (queues : PriorityQueues T) (coin : Priority → Bool) : Except QueuePanic (Drawn T) :=
  drawHigh queues coin (queues.weightOf .high + queues.weightOf .medium + queues.weightOf .low)

end PriorityQueues

/-! ### The threads -/

/-- What the thread of a receiver is doing. -/
inductive Receiver where
  /-- No call is running. -/
  | idle
  /-- In `recv`: it has the lock, found the queues empty and the sender there, and is about
      to wait. -/
  | checked
  /-- Asleep on the condition variable. -/
  | waiting
  /-- Woken by `notify_one`, and waiting for the lock. -/
  | notified
  | dropped
deriving DecidableEq

/-- The receiver is in a `pop` that found the queues empty. -/
def Receiver.inRecv : Receiver → Bool
  | .checked | .waiting | .notified => true
  | .idle | .dropped => false

/-- The state of the queue and of the threads that use it. -/
structure PriorityQueueState (T : Type) where
  queues : PriorityQueues T
  receiverCount : Nat
  senderCount : Nat
  receivers : List Receiver
  /-- The sends that saw a receiver and wait for the lock. -/
  inFlight : List (Priority × T)
  /-- The items that were sent, and those that were handed out, in order. -/
  accepted : List (Priority × T)
  handed : List (Priority × T)

namespace PriorityQueueState

inductive Action (T : Type) where
  /-- The first check of `send`. -/
  | send (priority : Priority) (item : T)
  /-- The first check of `spin_send`. -/
  | spinSend (priority : Priority) (item : T)
  /-- A send gets the lock and, if it can, wakes a receiver. -/
  | push (send : Nat) (woken : Option Nat)
  | dropSender
  | clone (receiver : Nat)
  | dropReceiver (receiver : Nat)
  /-- `pop` up to its wait, or to its end. -/
  | pop (receiver : Nat) (coin : Priority → Bool)
  /-- The receiver lets go of the lock and sleeps. -/
  | wait (receiver : Nat)
  /-- A receiver that was woken gets the lock. -/
  | wake (receiver : Nat) (coin : Priority → Bool)
  | tryPop (receiver : Nat) (coin : Priority → Bool)
  | spinTryPop (receiver : Nat) (coin : Priority → Bool)

variable {T : Type}

def new : PriorityQueueState T where
  queues := .new
  receiverCount := 1
  senderCount := 1
  receivers := [.idle]
  inFlight := []
  accepted := []
  handed := []

/-- Nobody has the lock. -/
def unlocked (s : PriorityQueueState T) : Bool := !s.receivers.contains .checked

def setReceiver (s : PriorityQueueState T) (receiver : Nat) (r : Receiver) :
    PriorityQueueState T :=
  { s with receivers := s.receivers.set receiver r }

def send (s : PriorityQueueState T) (priority : Priority) (item : T) : PriorityQueueState T :=
  if s.receiverCount = 0 then s
  else { s with inFlight := s.inFlight ++ [(priority, item)] }

/-- `spin_send` differs from `send` in how it takes the lock. -/
def spinSend (s : PriorityQueueState T) (priority : Priority) (item : T) :
    PriorityQueueState T :=
  s.send priority item

/-- `notify_one` wakes a receiver that sleeps, if there is one. -/
def notifyOne (s : PriorityQueueState T) (woken : Option Nat) : Option (PriorityQueueState T) :=
  match woken with
  | none => if s.receivers.contains .waiting then none else some s
  | some receiver =>
      if s.receivers[receiver]? = some .waiting then some (s.setReceiver receiver .notified)
      else none

/-- `try_recv`, with the lock. -/
def tryRecv (s : PriorityQueueState T) : Except RecvError (Option (PriorityQueues T)) :=
  if s.queues.isEmpty && s.senderCount == 0 then .error {}
  else if s.queues.isEmpty then .ok none
  else .ok (some s.queues)

/-- `spin_try_recv` differs from `try_recv` in how it takes the lock. -/
def spinTryRecv (s : PriorityQueueState T) : Except RecvError (Option (PriorityQueues T)) :=
  s.tryRecv

/-- The queues after a draw, and what was drawn is handed out. -/
def handOut (s : PriorityQueueState T) (drawn : PriorityQueues.Drawn T) :
    PriorityQueueState T :=
  { s with queues := drawn.2, handed := s.handed ++ drawn.1.toList }

/-- `pop_inner` of a call that does not block. -/
def popReceived (s : PriorityQueueState T) (received : Except RecvError (Option (PriorityQueues T)))
    (coin : Priority → Bool) : Except QueuePanic (PriorityQueueState T) :=
  match received with
  -- the sender is gone
  | .error _          => .ok s
  | .ok none          => .ok s
  | .ok (some queues) => (queues.draw coin).map s.handOut

def tryPop (s : PriorityQueueState T) (coin : Priority → Bool) :
    Except QueuePanic (PriorityQueueState T) :=
  s.popReceived s.tryRecv coin

def spinTryPop (s : PriorityQueueState T) (coin : Priority → Bool) :
    Except QueuePanic (PriorityQueueState T) :=
  s.popReceived s.spinTryRecv coin

/-- The end of `pop`, once the queues are not empty. -/
def popUnwrap (s : PriorityQueueState T) (receiver : Nat) (coin : Priority → Bool) :
    Except QueuePanic (PriorityQueueState T) := do
  let drawn ← s.queues.draw coin
  match drawn.1 with
  | none   => .error .unwrapNone
  | some _ => .ok ((s.handOut drawn).setReceiver receiver .idle)

/-- `pop` with the lock: the checks of `recv`. -/
def pop (s : PriorityQueueState T) (receiver : Nat) (coin : Priority → Bool) :
    Except QueuePanic (PriorityQueueState T) :=
  -- the error: the call ends
  if s.queues.isEmpty && s.senderCount == 0 then .ok s
  else if s.queues.isEmpty then .ok (s.setReceiver receiver .checked)
  else s.popUnwrap receiver coin

/-- The condition of the loop of `recv`, after a wait.  The number of senders is not read
    again. -/
def wake (s : PriorityQueueState T) (receiver : Nat) (coin : Priority → Bool) :
    Except QueuePanic (PriorityQueueState T) :=
  if s.queues.isEmpty then .ok (s.setReceiver receiver .waiting)
  else s.popUnwrap receiver coin

/-- A send gets the lock. -/
def push (s : PriorityQueueState T) (send : Nat) (woken : Option Nat) :
    Option (Except QueuePanic (PriorityQueueState T)) :=
  match s.inFlight[send]? with
  | none => none
  | some (priority, item) =>
      match s.queues.push priority item with
      | .error e => some (.error e)
      | .ok queues =>
          ({ s with
            queues := queues
            inFlight := s.inFlight.eraseIdx send
            accepted := s.accepted ++ [(priority, item)] }.notifyOne woken).map .ok

/-- One step of a thread; `none` if it is not possible. -/
def step (s : PriorityQueueState T) :
    Action T → Option (Except QueuePanic (PriorityQueueState T))
  | .send priority item =>
      if s.senderCount = 0 then none else some (.ok (s.send priority item))
  | .spinSend priority item =>
      if s.senderCount = 0 then none else some (.ok (s.spinSend priority item))
  | .push send woken => if s.unlocked then s.push send woken else none
  | .dropSender =>
      -- the sender is borrowed while a send runs
      if s.senderCount = 0 ∨ s.inFlight ≠ [] then none
      else some (.ok { s with senderCount := s.senderCount - 1 })
  | .clone receiver =>
      if s.receivers[receiver]? = some .idle then
        some (.ok { s with
          receiverCount := s.receiverCount + 1
          receivers := s.receivers ++ [.idle] })
      else none
  | .dropReceiver receiver =>
      if s.receivers[receiver]? = some .idle then
        some (.ok { s.setReceiver receiver .dropped with receiverCount := s.receiverCount - 1 })
      else none
  | .pop receiver coin =>
      if s.receivers[receiver]? = some .idle ∧ s.unlocked then some (s.pop receiver coin)
      else none
  | .wait receiver =>
      if s.receivers[receiver]? = some .checked then
        some (.ok (s.setReceiver receiver .waiting))
      else none
  | .wake receiver coin =>
      if s.receivers[receiver]? = some .notified ∧ s.unlocked then some (s.wake receiver coin)
      else none
  | .tryPop receiver coin =>
      if s.receivers[receiver]? = some .idle ∧ s.unlocked then some (s.tryPop coin) else none
  | .spinTryPop receiver coin =>
      if s.receivers[receiver]? = some .idle ∧ s.unlocked then some (s.spinTryPop coin)
      else none

/-- The queue with its threads. -/
def machine (T : Type) : Machine QueuePanic (PriorityQueueState T) (Action T) where
  start := new
  step := step

end PriorityQueueState

end Gpui
