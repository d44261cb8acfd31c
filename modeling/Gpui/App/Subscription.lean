import Mathlib

/-! # Subscriptions: the model

    A set of subscribers keeps, for each emitter, the callbacks by subscriber id.
    While the callbacks of an emitter are called, its map is taken out of the set
    and a placeholder stands in its place, so that a callback may insert, activate
    and drop subscriptions of the same set.

    Each subscriber shares two cells with its handles; here the cells stand in the
    state, by subscriber id. -/

namespace Gpui

/-- The subscribers to one emitter, by id. -/
abbrev Subscribers (C : Type) := Std.TreeMap Nat C

structure SubscriberSet (K C : Type) where
  /-- `some none` is the placeholder for a map that is taken out. -/
  subscribers : K → Option (Option (Subscribers C))
  nextSubscriberId : Nat
  active : Nat → Bool
  dropped : Nat → Bool
  /-- The emitter key that the handle of a subscriber holds. -/
  handles : Nat → Option K

namespace SubscriberSet

variable {K C W : Type} [DecidableEq K]

def new : SubscriberSet K C where
  subscribers := fun _ => none
  nextSubscriberId := 0
  active := fun _ => false
  dropped := fun _ => false
  handles := fun _ => none

/-- Puts the subscribers of one emitter into the map, or takes its entry away. -/
def setEntry (set : SubscriberSet K C) (emitter : K) (entry : Option (Option (Subscribers C))) :
    SubscriberSet K C :=
  { set with subscribers := Function.update set.subscribers emitter entry }

@[simp] theorem setEntry_self (set : SubscriberSet K C) (emitter : K)
    (entry : Option (Option (Subscribers C))) :
    (set.setEntry emitter entry).subscribers emitter = entry := by
  simp [setEntry]

theorem setEntry_of_ne (set : SubscriberSet K C) {emitter other : K}
    (entry : Option (Option (Subscribers C))) (h : other ≠ emitter) :
    (set.setEntry emitter entry).subscribers other = set.subscribers other := by
  simp [setEntry, h]

/-- An inert subscriber; its handle has the next id. -/
def insert (set : SubscriberSet K C) (emitterKey : K) (callback : C) : SubscriberSet K C :=
  let subscriberId := set.nextSubscriberId
  let entry := ((set.subscribers emitterKey).getD none).getD ∅
  { subscribers := Function.update set.subscribers emitterKey
      (some (some (entry.insert subscriberId callback)))
    nextSubscriberId := subscriberId + 1
    active := Function.update set.active subscriberId false
    dropped := Function.update set.dropped subscriberId false
    handles := Function.update set.handles subscriberId (some emitterKey) }

/-- Calls the closure that came with a subscription. -/
def activate (set : SubscriberSet K C) (subscriberId : Nat) : SubscriberSet K C :=
  match set.handles subscriberId with
  | none   => set
  | some _ => { set with active := Function.update set.active subscriberId true }

/-- Drops a subscription. -/
def drop (set : SubscriberSet K C) (subscriberId : Nat) : SubscriberSet K C :=
  match set.handles subscriberId with
  | none => set
  | some emitterKey =>
      let set := { set with dropped := Function.update set.dropped subscriberId true }
      match set.subscribers emitterKey with
      | none      => set
      | some none => set
      | some (some subscribers) =>
          let subscribers := subscribers.erase subscriberId
          set.setEntry emitterKey (if subscribers.isEmpty then none else some (some subscribers))

/-- Takes the subscribers of an emitter away. -/
def remove (set : SubscriberSet K C) (emitter : K) : SubscriberSet K C :=
  set.setEntry emitter none

/-! ## Calling the subscribers -/

/-- What a callback may do to the set. -/
inductive Op (K C : Type) where
  | insert (emitterKey : K) (callback : C)
  | activate (subscriberId : Nat)
  | drop (subscriberId : Nat)

def apply (set : SubscriberSet K C) : Op K C → SubscriberSet K C
  | .insert emitterKey callback => set.insert emitterKey callback
  | .activate subscriberId      => set.activate subscriberId
  | .drop subscriberId          => set.drop subscriberId

/-- What one call of `f` comes to: what it did to the set, the callback it left, its
    answer, and its own state. -/
structure Reply (W K C : Type) where
  ops : List (Op K C)
  callback : C
  keep : Bool
  world : W

/-- The function passed to `retain`.  It has a state of its own and may look at the
    set. -/
abbrev Visitor (W K C : Type) := W → SubscriberSet K C → C → Reply W K C

/-- A pass over the subscribers of an emitter. -/
structure Pass (W K C : Type) where
  world : W
  set : SubscriberSet K C
  /-- The subscribers `f` was called on, with its answers. -/
  called : List (Nat × Bool)

/-- The turn of one subscriber, and its callback if the subscriber stays. -/
def turn (f : Visitor W K C) (pass : Pass W K C) (subscriberId : Nat) (callback : C) :
    Pass W K C × Option C :=
  if !pass.set.active subscriberId then (pass, some callback)
  else if pass.set.dropped subscriberId then (pass, none)
  else
    let reply := f pass.world pass.set callback
    let set := reply.ops.foldl apply pass.set
    (⟨reply.world, set, pass.called ++ [(subscriberId, reply.keep)]⟩,
      if reply.keep && !set.dropped subscriberId then some reply.callback else none)

/-- The turns of some subscribers, and those that stay. -/
def turns (f : Visitor W K C) : Pass W K C → List (Nat × C) → Pass W K C × List (Nat × C)
  | pass, [] => (pass, [])
  | pass, (subscriberId, callback) :: rest =>
      let (pass, kept) := turn f pass subscriberId callback
      let (pass, keptRest) := turns f pass rest
      (pass, (kept.map (fun callback => (subscriberId, callback))).toList ++ keptRest)

/-- Puts the subscribers that stay back, with those inserted in the meantime. -/
def mergeBack (set : SubscriberSet K C) (emitter : K) (kept : List (Nat × C)) :
    SubscriberSet K C :=
  let subscribers := match set.subscribers emitter with
    | some (some newSubscribers) => (Std.TreeMap.ofList kept).insertMany newSubscribers.toList
    | some none                  => Std.TreeMap.ofList kept
    | none                       => Std.TreeMap.ofList kept
  set.setEntry emitter (if subscribers.isEmpty then none else some (some subscribers))

/-- The subscribers a pass starts with. -/
def startOf (set : SubscriberSet K C) (emitter : K) : List (Nat × C) :=
  match set.subscribers emitter with
  | none                    => []
  | some none               => []
  | some (some subscribers) => subscribers.toList

/-- Calls `f` on the subscribers of an emitter; those it rejects are removed. -/
def retain (set : SubscriberSet K C) (emitter : K) (f : Visitor W K C) (world : W) :
    Pass W K C :=
  match set.subscribers emitter with
  | none      => ⟨world, set, []⟩
  | some none => ⟨world, set, []⟩
  | some (some subscribers) =>
      let (pass, kept) := turns f ⟨world, set.setEntry emitter (some none), []⟩ subscribers.toList
      { pass with set := pass.set.mergeBack emitter kept }

/-! ## Runs -/

/-- An operation on the set from outside a pass. -/
inductive Step (W K C : Type) where
  | op (op : Op K C)
  | remove (emitter : K)
  | retain (emitter : K) (f : Visitor W K C) (world : W)

/-- The set after one step, and the subscribers that were called. -/
def step (set : SubscriberSet K C) : Step W K C → SubscriberSet K C × List (Nat × Bool)
  | .op op => (set.apply op, [])
  | .remove emitter => (set.remove emitter, [])
  | .retain emitter f world =>
      let pass := set.retain emitter f world
      (pass.set, pass.called)

/-- The set after some steps, and the subscribers that were called. -/
def run : SubscriberSet K C → List (Step W K C) → SubscriberSet K C × List (Nat × Bool)
  | set, [] => (set, [])
  | set, first :: rest =>
      let (set, called) := set.step first
      let (set, calledRest) := run set rest
      (set, called ++ calledRest)

end SubscriberSet

end Gpui
