import Gpui.Lib.Machine
import Gpui.App.SubscriptionSpec

/-! # Subscriptions: several passes and removals at once

    A callback of a pass may use the set in every way, so passes nest.  What `remove`
    returns is an iterator: it hands out one callback after another, and whoever holds it
    may use the set in between.

    Here the calls are taken apart into their steps.  A subscription is dropped at most
    once, and the closure that activates it is called at most once. -/

namespace Gpui

namespace SubscriberSet

/-! ### Section 1: States -/

/-- Where a pass is. -/
inductive Phase (C : Type) where
  /-- Between two subscribers. -/
  | between
  /-- In the callback of a subscriber. -/
  | calling (subscriberId : Nat) (callback : C)
  /-- Behind a subscriber that was rejected, while what its callback owns is dropped. -/
  | rejected

/-- A pass of `retain` that is not over. -/
structure Frame (K C : Type) where
  emitter : K
  /-- The subscribers that stay. -/
  kept : List (Nat × C)
  phase : Phase C
  /-- The subscribers that had no turn. -/
  rest : List (Nat × C)

/-- What happens to a callback. -/
inductive Event where
  /-- Its subscription is dropped. -/
  | dropped (subscriberId : Nat)
  /-- A pass invokes it. -/
  | invoked (subscriberId : Nat)
  /-- An iterator of `remove` hands it out. -/
  | handedOut (subscriberId : Nat)
  deriving DecidableEq

/-- The set with the calls that are not over. -/
structure Delivery (K C : Type) where
  set : SubscriberSet K C
  /-- The passes, the innermost one first. -/
  passes : List (Frame K C)
  /-- What the iterators of `remove` have left. -/
  removals : List (List (Nat × C))
  /-- What happened, in order. -/
  log : List Event

/-! ### Section 2: Steps -/

inductive Action (K C : Type) where
  /-- A call that is over at once. -/
  | op (op : Op K C)
  /-- A call of `retain` takes the subscribers of an emitter out. -/
  | retain (emitter : K)
  /-- The innermost pass goes on to its next subscriber, or ends. -/
  | next
  /-- The callback returns, with what it left in its place. -/
  | returns (callback : C) (keep : Bool)
  /-- A call of `remove`. -/
  | remove (emitter : K)
  /-- An iterator of `remove` goes on by one subscriber. -/
  | advance (removal : Nat)

namespace Delivery

variable {K C : Type} [DecidableEq K]

def start : Delivery K C := ⟨new, [], [], []⟩

/-- Code other than that of the set runs: outside all passes, in a callback, and when one
    is dropped. -/
def outside (s : Delivery K C) : Bool :=
  match s.passes with
  | [] => true
  | frame :: _ =>
      match frame.phase with
      | .between => false
      | .calling _ _ => true
      | .rejected => true

/-- A subscription can be dropped once, and activated once. -/
def possible (set : SubscriberSet K C) : Op K C → Bool
  | .insert _ _            => true
  | .activate subscriberId => (set.handles subscriberId).isSome && !set.active subscriberId
  | .drop subscriberId     => (set.handles subscriberId).isSome && !set.dropped subscriberId

/-- What a call adds to the log. -/
def events : Op K C → List Event
  | .insert _ _        => []
  | .activate _        => []
  | .drop subscriberId => [.dropped subscriberId]

/-- The subscribers of an emitter are taken out, if there are any. -/
def retain (s : Delivery K C) (emitter : K) : Delivery K C :=
  match s.set.subscribers emitter with
  | none      => s
  | some none => s
  | some (some subscribers) =>
      { s with
        set := s.set.setEntry emitter (some none)
        passes := ⟨emitter, [], .between, subscribers.toList⟩ :: s.passes }

/-- The turn of the next subscriber. -/
def next (s : Delivery K C) (frame : Frame K C) (outer : List (Frame K C)) : Delivery K C :=
  match frame.rest with
  | [] => { s with set := s.set.mergeBack frame.emitter frame.kept, passes := outer }
  | (subscriberId, callback) :: rest =>
      if !s.set.active subscriberId then
        -- an inactive subscriber stays, also if it is dropped
        let kept := frame.kept ++ [(subscriberId, callback)]
        { s with passes := ⟨frame.emitter, kept, .between, rest⟩ :: outer }
      else if s.set.dropped subscriberId then
        { s with passes := ⟨frame.emitter, frame.kept, .rejected, rest⟩ :: outer }
      else
        { s with
          passes := ⟨frame.emitter, frame.kept, .calling subscriberId callback, rest⟩ :: outer
          log := s.log ++ [.invoked subscriberId] }

/-- The subscriber that was called stays if the callback says so and it was not dropped. -/
def returns (s : Delivery K C) (frame : Frame K C) (outer : List (Frame K C))
    (subscriberId : Nat) (callback : C) (keep : Bool) : Delivery K C :=
  if keep && !s.set.dropped subscriberId then
    let kept := frame.kept ++ [(subscriberId, callback)]
    { s with passes := ⟨frame.emitter, kept, .between, frame.rest⟩ :: outer }
  else
    { s with passes := ⟨frame.emitter, frame.kept, .rejected, frame.rest⟩ :: outer }

def remove (s : Delivery K C) (emitter : K) : Delivery K C :=
  { s with
    set := s.set.remove emitter
    removals := s.removals ++ [s.set.startOf emitter] }

/-- The filter of `remove` looks at one subscriber. -/
def advance (s : Delivery K C) (removal subscriberId : Nat) (rest : List (Nat × C)) :
    Delivery K C :=
  { s with
    removals := s.removals.set removal rest
    log := if s.set.active subscriberId then s.log ++ [.handedOut subscriberId] else s.log }

def step (s : Delivery K C) : Action K C → Option (Except Empty (Delivery K C))
  | .op op =>
      if s.outside && possible s.set op then
        some (.ok { s with set := s.set.apply op, log := s.log ++ events op })
      else none
  | .retain emitter => if s.outside then some (.ok (s.retain emitter)) else none
  | .next =>
      match s.passes with
      | [] => none
      | frame :: outer =>
          match frame.phase with
          | .calling _ _ => none
          | .between     => some (.ok (s.next frame outer))
          | .rejected    => some (.ok (s.next frame outer))
  | .returns callback keep =>
      match s.passes with
      | [] => none
      | frame :: outer =>
          match frame.phase with
          | .calling subscriberId _ =>
              some (.ok (s.returns frame outer subscriberId callback keep))
          | .between  => none
          | .rejected => none
  | .remove emitter => if s.outside then some (.ok (s.remove emitter)) else none
  | .advance removal =>
      if s.outside then
        match s.removals[removal]? with
        | some ((subscriberId, _) :: rest) => some (.ok (s.advance removal subscriberId rest))
        | some [] => none
        | none    => none
      else none

def machine (K C : Type) [DecidableEq K] : Machine Empty (Delivery K C) (Action K C) where
  start := start
  step := step

end Delivery

end SubscriberSet

end Gpui
