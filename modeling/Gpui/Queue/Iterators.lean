import Gpui.Queue.PriorityQueueSpec

/-! # The iterators of the queue

    A receiver can be turned into an iterator.  `Iter` blocks where the queues are empty,
    `TryIter` does not, and both say that after a `None` they return nothing any more.

    `Iter` does: its `None` means that the sender is gone, and what is gone does not come
    back.  `TryIter` remembers its end in a flag that it sets for an error only, so a `None`
    that came from queues that were empty for a moment is not remembered. -/

open Exec

namespace Gpui

/-! ### What the calls return -/

namespace PriorityQueueState

variable {T : Type}

/-- The result of `try_pop`. -/
def tryPopReturns (s : PriorityQueueState T) (coin : Priority → Bool) :
    Except QueuePanic (Except RecvError (Option T)) :=
  match s.tryRecv with
  | .error e          => .ok (.error e)
  | .ok none          => .ok (.ok none)
  | .ok (some queues) => (queues.draw coin).map fun drawn => .ok (drawn.1.map Prod.snd)

/-- The `unwrap` of `pop`. -/
def unwrapped (s : PriorityQueueState T) (coin : Priority → Bool) :
    Except QueuePanic (Option (Except RecvError T)) := do
  let drawn ← s.queues.draw coin
  match drawn.1 with
  | none           => .error .unwrapNone
  | some (_, item) => .ok (some (.ok item))

/-- The result of a `pop` that has the lock; none if it goes on to wait. -/
def popReturns (s : PriorityQueueState T) (coin : Priority → Bool) :
    Except QueuePanic (Option (Except RecvError T)) :=
  if s.queues.isEmpty && s.senderCount == 0 then .ok (some (.error {}))
  else if s.queues.isEmpty then .ok none
  else s.unwrapped coin

/-- The result of a `pop` that was woken. -/
def wakeReturns (s : PriorityQueueState T) (coin : Priority → Bool) :
    Except QueuePanic (Option (Except RecvError T)) :=
  if s.queues.isEmpty then .ok none else s.unwrapped coin

/-- The receiver that an action is called on, if it is not an iterator. -/
def Action.uses : Action T → Option Nat
  | .clone receiver | .pop receiver _ | .wake receiver _ | .tryPop receiver _
  | .spinTryPop receiver _ => some receiver
  | _ => none

end PriorityQueueState

/-- `Result::transpose`. -/
def transposeResult {ε T : Type} : Except ε (Option T) → Option (Except ε T)
  | .ok none        => none
  | .ok (some item) => some (.ok item)
  | .error e        => some (.error e)

/-! ### The iterators -/

/-- What a receiver was turned into. -/
inductive Wrapper where
  | receiver
  | tryIter (ended : Bool)
  | iter
deriving DecidableEq

/-- The queue with its iterators, and what their calls of `next` returned. -/
structure IteratorState (T : Type) where
  queue : PriorityQueueState T
  wrapper : Nat → Wrapper
  returned : Nat → List (Option (Except RecvError T))

inductive IteratorAction (T : Type) where
  /-- A step of the sender, or of a receiver that is not an iterator. -/
  | queue (a : PriorityQueueState.Action T)
  | tryIter (receiver : Nat)
  | iter (receiver : Nat)
  | next (receiver : Nat) (coin : Priority → Bool)
  /-- An `Iter` that was woken gets the lock. -/
  | wake (receiver : Nat) (coin : Priority → Bool)

namespace IteratorState

variable {T : Type}

def new : IteratorState T where
  queue := .new
  wrapper := fun _ => .receiver
  returned := fun _ => []

def wrap (s : IteratorState T) (receiver : Nat) (wrapper : Wrapper) : IteratorState T :=
  { s with wrapper := Function.update s.wrapper receiver wrapper }

/-- `next` returns. -/
def returns (s : IteratorState T) (receiver : Nat) (item : Option (Except RecvError T)) :
    IteratorState T :=
  { s with returned := Function.update s.returned receiver (s.returned receiver ++ [item]) }

/-- `TryIter::next`. -/
def tryNext (s : IteratorState T) (receiver : Nat) (ended : Bool) (coin : Priority → Bool) :
    Option (Except QueuePanic (IteratorState T)) :=
  if s.queue.receivers[receiver]? ≠ some .idle then none
  else if ended then some (.ok (s.returns receiver none))
  else
    (s.queue.step (.tryPop receiver coin)).map fun next => do
      let res ← s.queue.tryPopReturns coin
      let queue ← next
      -- the end is an error, and not a `None`
      let ended := res.toOption.isNone
      .ok (({ s with queue := queue }.wrap receiver (.tryIter ended)).returns receiver
        (transposeResult res))

/-- `Iter::next` returns if its `pop` does. -/
def popped (s : IteratorState T) (receiver : Nat) :
    Option (Except RecvError T) → IteratorState T
  | none     => s
  | some res => s.returns receiver (res.toOption.map .ok)

/-- `Iter::next`, up to its wait or to its end. -/
def iterNext (s : IteratorState T) (receiver : Nat) (coin : Priority → Bool) :
    Option (Except QueuePanic (IteratorState T)) :=
  (s.queue.step (.pop receiver coin)).map fun next => do
    let res ← s.queue.popReturns coin
    let queue ← next
    .ok ({ s with queue := queue }.popped receiver res)

/-- `Iter::next` after a wait. -/
def iterWake (s : IteratorState T) (receiver : Nat) (coin : Priority → Bool) :
    Option (Except QueuePanic (IteratorState T)) :=
  (s.queue.step (.wake receiver coin)).map fun next => do
    let res ← s.queue.wakeReturns coin
    let queue ← next
    .ok ({ s with queue := queue }.popped receiver res)

def step (s : IteratorState T) :
    IteratorAction T → Option (Except QueuePanic (IteratorState T))
  | .queue a =>
      if ∀ receiver ∈ a.uses, s.wrapper receiver = .receiver then
        (s.queue.step a).map fun next => next.map fun queue => { s with queue := queue }
      else none
  | .tryIter receiver =>
      if s.queue.receivers[receiver]? = some .idle ∧ s.wrapper receiver = .receiver then
        some (.ok (s.wrap receiver (.tryIter false)))
      else none
  | .iter receiver =>
      if s.queue.receivers[receiver]? = some .idle ∧ s.wrapper receiver = .receiver then
        some (.ok (s.wrap receiver .iter))
      else none
  | .next receiver coin =>
      match s.wrapper receiver with
      | .receiver      => none
      | .tryIter ended => s.tryNext receiver ended coin
      | .iter          => s.iterNext receiver coin
  | .wake receiver coin =>
      if s.wrapper receiver = .iter then s.iterWake receiver coin else none

/-- The queue with its iterators. -/
def machine (T : Type) : Machine QueuePanic (IteratorState T) (IteratorAction T) where
  start := new
  step := step

/-- After a `None`, nothing but `None`. -/
def Fused (returned : List (Option (Except RecvError T))) : Prop :=
  returned.Pairwise fun earlier later => earlier = none → later = none

instance [DecidableEq T] (returned : List (Option (Except RecvError T))) :
    Decidable (Fused returned) :=
  inferInstanceAs (Decidable (List.Pairwise _ _))

/-- A `TryIter` is asked for an item while the queues are empty only if it has ended or the
    sender is gone. -/
def Heeds (s : IteratorState T) : IteratorAction T → Prop
  | .next receiver _ =>
      s.wrapper receiver = .tryIter false → s.queue.queues.isEmpty = true →
        s.queue.senderCount = 0
  | _ => True

end IteratorState

end Gpui
