import Gpui.Queue.PriorityQueue

/-! # The bridge to the event loop: the model

    The sender of a priority queue with a ping, and an event source that is called when a
    ping is pending and pops the queue until it is empty or disconnected.  The queue is the
    one of `PriorityQueueState`, with one receiver for the source and a clone of it for
    every call of `process_events`.

    Sending is a push and then a ping; dropping the sender is a ping, from its `Drop`, and
    then the drop of its fields.  Other threads, and the callback, can do their steps
    between any two steps of the event loop.  A ping that is pending absorbs another one,
    and the receiver keeps a ping of its own, so the source of the pings is never closed. -/

namespace Gpui

inductive Event (T : Type) where
  | msg (item : T)
  | closed
deriving DecidableEq, Repr

/-- What `try_pop` returns; `tryPop` is the state that it leaves. -/
def PriorityQueueState.tryPopped {T : Type} (s : PriorityQueueState T) (coin : Priority → Bool) :
    Except RecvError (Option T) :=
  match s.tryRecv with
  | .error e          => .error e
  | .ok none          => .ok none
  | .ok (some queues) =>
      match queues.draw coin with
      -- the call panics
      | .error _  => .ok none
      | .ok drawn => .ok (drawn.1.map Prod.snd)

/-- The `PriorityQueueCalloopSender`. -/
inductive CalloopSender where
  | alive
  /-- The body of `drop` has run, and the fields are still there. -/
  | pinged
  | dropped
deriving DecidableEq, Repr

/-- Where the event loop is in `process_events`. -/
inductive Processing where
  | idle
  /-- In the loop over `try_iter`, with the clone it pops from and `is_empty`. -/
  | popping (clone : Nat) (isEmpty : Bool)
  /-- The iterator has ended. -/
  | popped (clone : Nat) (isEmpty disconnected : Bool)
  /-- The source of the pings has returned. -/
  | processed (clearReadiness disconnected : Bool)
  /-- The event loop was told to remove the source, and has dropped it. -/
  | removed
deriving DecidableEq, Repr

/-- A call is running. -/
def Processing.running : Processing → Bool
  | .idle | .removed => false
  | .popping _ _ | .popped _ _ _ | .processed _ _ => true

/-- The state of the bridge. -/
structure PriorityQueueCalloop (T : Type) where
  queue : PriorityQueueState T
  sender : CalloopSender
  /-- The sends that have pushed and not pinged. -/
  pinging : Nat
  /-- A ping is pending. -/
  pinged : Bool
  processing : Processing
  /-- What the callback was called with. -/
  events : List (Event T)

namespace PriorityQueueCalloop

inductive Action (T : Type) where
  /-- `send` begins: the first check of `PriorityQueueSender::send`. -/
  | send (priority : Priority) (item : T)
  /-- A send gets the lock of the queue. -/
  | push (send : Nat) (woken : Option Nat)
  /-- A send that has pushed pings. -/
  | ping
  /-- The body of `drop` of the sender. -/
  | dropBody
  /-- The fields of the sender are dropped. -/
  | dropFields
  /-- `process_events` is called, and drains the ping. -/
  | processEvents
  /-- The next item of `try_iter`, and the callback with it. -/
  | next (coin : Priority → Bool)
  /-- What is done after the loop, and the source of the pings returns. -/
  | finish
  /-- The rest of `process_events`. -/
  | postAction

variable {T : Type}

/-- `PriorityQueueCalloopReceiver::new`. -/
def new : PriorityQueueCalloop T where
  queue := .new
  sender := .alive
  pinging := 0
  pinged := false
  processing := .idle
  events := []

/-- A step of the queue, and what is done next to it. -/
def onQueue (s : PriorityQueueCalloop T) (a : PriorityQueueState.Action T)
    (next : PriorityQueueCalloop T → PriorityQueueCalloop T) :
    Option (Except QueuePanic (PriorityQueueCalloop T)) :=
  (s.queue.step a).map (Except.map (fun queue => next { s with queue }))

/-- The body of the loop over `try_iter`. -/
def onPopped (s : PriorityQueueCalloop T) (clone : Nat) (isEmpty : Bool) :
    Except RecvError (Option T) → PriorityQueueCalloop T
  | .ok (some item) =>
      { s with processing := .popping clone false, events := s.events ++ [.msg item] }
  | .ok none => { s with processing := .popped clone isEmpty false }
  -- the iterator has ended, and yields nothing after its error
  | .error _ => { s with processing := .popped clone isEmpty true }

/-- What is done after the loop; the clone went with the iterator. -/
def onEnded (s : PriorityQueueCalloop T) (isEmpty disconnected : Bool) : PriorityQueueCalloop T :=
  { s with
    processing := .processed isEmpty disconnected
    events := if disconnected then s.events ++ [.closed] else s.events }

/-- One step of a thread; `none` if it is not possible. -/
def step (s : PriorityQueueCalloop T) :
    Action T → Option (Except QueuePanic (PriorityQueueCalloop T))
  | .send priority item =>
      if s.sender = .alive then s.onQueue (.send priority item) id else none
  | .push send woken => s.onQueue (.push send woken) fun s => { s with pinging := s.pinging + 1 }
  | .ping =>
      if s.pinging = 0 then none
      else some (.ok { s with pinging := s.pinging - 1, pinged := true })
  | .dropBody =>
      -- the sender is borrowed while a send runs
      if s.sender = .alive ∧ s.queue.inFlight.isEmpty ∧ s.pinging = 0 then
        some (.ok { s with sender := .pinged, pinged := true })
      else none
  | .dropFields =>
      -- first `sender`, then `ping`, which is not the last one
      if s.sender = .pinged then s.onQueue .dropSender fun s => { s with sender := .dropped }
      else none
  | .processEvents =>
      if s.processing = .idle ∧ s.pinged then
        s.onQueue (.clone 0) fun s' =>
          { s' with pinged := false, processing := .popping s.queue.receivers.length true }
      else none
  | .next coin =>
      match s.processing with
      | .popping clone isEmpty =>
          s.onQueue (.tryPop clone coin) fun s' =>
            s'.onPopped clone isEmpty (s.queue.tryPopped coin)
      | _ => none
  | .finish =>
      match s.processing with
      | .popped clone isEmpty disconnected =>
          s.onQueue (.dropReceiver clone) fun s => s.onEnded isEmpty disconnected
      | _ => none
  | .postAction =>
      match s.processing with
      | .processed _ true =>
          s.onQueue (.dropReceiver 0) fun s => { s with processing := .removed }
      | .processed true false => some (.ok { s with processing := .idle })
      -- "Re-notify the ping source so we can try again."
      | .processed false false => some (.ok { s with processing := .idle, pinged := true })
      | _ => none

/-- The bridge with its threads. -/
def machine (T : Type) : Machine QueuePanic (PriorityQueueCalloop T) (Action T) where
  start := new
  step := step

end PriorityQueueCalloop

end Gpui
