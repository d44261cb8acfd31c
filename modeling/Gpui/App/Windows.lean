import Gpui.App.Subscription
import Gpui.Lib.Machine

/-! # Windows and entities of the app: the model

    While a window is updated it is taken out of the map of windows and its id is on the
    update stack; at the end of the update it is put back or, if it was marked removed,
    closed.  The app keeps, for each entity, the window in which its callbacks are run.

    A run is described by small steps, as the code of an update calls back into the app:
    the state of the app together with the stack of the calls that are running. -/

namespace Gpui

namespace Windows

/-- The place of a window in the map. -/
inductive Slot where
  /-- The window is being updated or opened. -/
  | taken
  | kept (removed : Bool)
deriving DecidableEq

/-- The effects of the other kinds are told apart in the model of the effects; here their
    handlers are arbitrary code. -/
inductive Effect (T : Type) where
  | entityCreated (entity : Nat) (tid : T) (window : Option Nat)
  | other
deriving DecidableEq

/-- The effect has a handle of the entity. -/
def Effect.holds {T : Type} (entity : Nat) : Effect T → Bool
  | .entityCreated created _ _ => created == entity
  | .other                     => false

/-- A call that is running. -/
inductive Frame (T C : Type) where
  /-- The closure of an update. -/
  | update
  /-- `finish_update`, in or after its flush. -/
  | finishUpdate
  /-- The loop of `flush_effects`. -/
  | flush
  /-- The closure of `update_window_id`, which has the window. -/
  | window (id : Nat) (removed : Bool)
  /-- `open_window`, which builds the root view and then draws the window. -/
  | opening (id : Nat) (removed drawing : Bool)
  /-- The handlers of an effect, a release callback, or the observers of a closed window. -/
  | handler
  /-- The pass of `apply_entity_created_effect`, with the observer that was called last. -/
  | announce (entity : Nat) (tid : T) (window : Option Nat) (called : Option (Nat × C))
      (remaining kept : List (Nat × C))

/-- The ways the app can panic. -/
inductive WindowPanic where
  /-- "All windows should be off the stack when flushing effects". -/
  | expectWindow
  /-- The slot of a window that is being opened is gone. -/
  | unwrapNone
deriving DecidableEq, Repr

/-- The part of the app that knows windows and entities, the calls that are running, the
    innermost first, and the calls of `ensure_window` so far. -/
structure State (T C : Type) where
  windows : Nat → Option Slot
  nextWindow : Nat
  /-- The innermost window first. -/
  windowUpdateStack : List Nat
  pendingEffects : List (Effect T)
  pendingUpdates : Nat
  flushingEffects : Bool
  newEntityObservers : SubscriberSet T C
  currentWindowByEntity : Nat → Option Nat
  trackedEntities : Nat → List Nat
  nextEntity : Nat
  /-- The entities that were not released. -/
  live : Nat → Bool
  stack : List (Frame T C)
  requests : List (Nat × Nat)

inductive Action (T C : Type) where
  /-- Code calls `update`. -/
  | startUpdate
  /-- The start of `new`, or `reserve_entity`, after which nothing is announced. -/
  | reserveEntity
  /-- The end of `new`, whose update is running. -/
  | newEntity (entity : Nat) (tid : T)
  /-- Code notifies, emits, defers and so on. -/
  | pushEffect
  /-- Code adds or drops an observer of new entities. -/
  | observe (op : SubscriberSet.Op T C)
  | openWindow
  /-- The platform opens no window. -/
  | openWindowFails
  | updateWindow (id : Nat)
  | withWindow (entity : Nat)
  /-- `remove_window`, by code that has the window. -/
  | removeWindow (id : Nat)
  /-- The end of a draw. -/
  | recordEntitiesAccessed (id : Nat) (entities : List Nat)
  /-- The start of `defer_in`, `observe_in` and `subscribe_in`, by code that has the
      window. -/
  | ensureWindow (entity id : Nat)
  /-- The running code returns. -/
  | returns
  /-- The flush releases an entity without handles. -/
  | releaseEntity (entity : Nat)
  /-- The flush tells the windows of released focus handles. -/
  | releaseFocusHandles
  /-- The app goes on with what it is doing. -/
  | next

namespace State

variable {T C : Type} [DecidableEq T]

def start : State T C where
  windows := fun _ => none
  nextWindow := 0
  windowUpdateStack := []
  pendingEffects := []
  pendingUpdates := 0
  flushingEffects := false
  newEntityObservers := .new
  currentWindowByEntity := fun _ => none
  trackedEntities := fun _ => []
  nextEntity := 0
  live := fun _ => false
  stack := []
  requests := []

def setWindow (s : State T C) (id : Nat) (slot : Option Slot) : State T C :=
  { s with windows := Function.update s.windows id slot }

def startUpdate (s : State T C) : State T C :=
  { s with pendingUpdates := s.pendingUpdates + 1, stack := .update :: s.stack }

/-- The closure of an update returned. -/
def finishUpdate (s : State T C) (stack : List (Frame T C)) : State T C :=
  if !s.flushingEffects && s.pendingUpdates == 1 then
    { s with flushingEffects := true, stack := .flush :: .finishUpdate :: stack }
  else { s with pendingUpdates := s.pendingUpdates - 1, stack := stack }

def reserveEntity (s : State T C) : State T C :=
  { s with nextEntity := s.nextEntity + 1, live := Function.update s.live s.nextEntity true }

/-- The effect names the window that is updated at the end of the creation. -/
def newEntity (s : State T C) (entity : Nat) (tid : T) : State T C :=
  { s with
    pendingEffects := s.pendingEffects ++ [.entityCreated entity tid s.windowUpdateStack.head?] }

/-! ### Updates of windows -/

/-- The window is taken, if it is there, and its closure runs. -/
def takeWindow (s : State T C) (id : Nat) : Option (State T C) :=
  match s.windows id with
  | some (.kept removed) =>
      some { (s.startUpdate).setWindow id (some .taken) with
        windowUpdateStack := id :: s.windowUpdateStack
        stack := .window id removed :: .update :: s.stack }
  | some .taken => none
  | none        => none

/-- `update_window_id`.  Without the window the update does nothing. -/
def updateWindowId (s : State T C) (id : Nat) : State T C :=
  (s.takeWindow id).getD s.startUpdate

def withWindow (s : State T C) (entity : Nat) : State T C :=
  match s.currentWindowByEntity entity with
  | none    => s
  | some id => s.updateWindowId id

/-- The window is closed. -/
def closeWindow (s : State T C) (id : Nat) : State T C :=
  { s.setWindow id none with
    trackedEntities := Function.update s.trackedEntities id []
    currentWindowByEntity := fun entity =>
      if entity ∈ s.trackedEntities id ∧ s.currentWindowByEntity entity = some id then none
      else s.currentWindowByEntity entity }

/-- Whether the update of a window whose slot is gone was for an announcement. -/
def isAnnounced : List (Frame T C) → Bool
  | .update :: .announce _ _ _ _ _ _ :: _ => true
  | _ => false

/-- The closure of `update_window_id` returned. -/
def trail (s : State T C) (id : Nat) (removed : Bool) (stack : List (Frame T C)) :
    Except WindowPanic (State T C) :=
  let s := { s with windowUpdateStack := s.windowUpdateStack.tail, stack := stack }
  if removed then
    -- the observers of closed windows run in the same update
    .ok { s.closeWindow id with stack := .handler :: stack }
  else
    match s.windows id with
    | some _ => .ok (s.setWindow id (some (.kept false)))
    | none   => if isAnnounced stack then .error .expectWindow else .ok s

/-- `open_window` up to the root view. -/
def openWindow (s : State T C) : State T C :=
  { s.startUpdate.setWindow s.nextWindow (some .taken) with
    nextWindow := s.nextWindow + 1
    windowUpdateStack := s.nextWindow :: s.windowUpdateStack
    stack := .opening s.nextWindow false false :: .update :: s.stack }

/-- The root view is built, or the window was drawn. -/
def opened (s : State T C) (id : Nat) (removed drawing : Bool) (stack : List (Frame T C)) :
    Except WindowPanic (State T C) :=
  if drawing then
    match s.windows id with
    | none   => .error .unwrapNone
    | some _ => .ok { s.setWindow id (some (.kept removed)) with stack := stack }
  else
    .ok { s with
      windowUpdateStack := s.windowUpdateStack.tail
      -- the window defers a look at the appearance
      pendingEffects := s.pendingEffects ++ [.other]
      stack := .opening id removed true :: stack }

/-- The window is in the hands of running code. -/
def holds (id : Nat) : Frame T C → Bool
  | .window other _    => other == id
  | .opening other _ _ => other == id
  | _                  => false

def markRemoved (id : Nat) : Frame T C → Frame T C
  | .window other removed          => .window other (removed || other == id)
  | .opening other removed drawing => .opening other (removed || other == id) drawing
  | frame                          => frame

/-! ### The windows of entities -/

def recordEntitiesAccessed (s : State T C) (id : Nat) (entities : List Nat) : State T C :=
  { s with
    trackedEntities := Function.update s.trackedEntities id entities
    currentWindowByEntity := fun entity =>
      if entity ∈ entities then some id else s.currentWindowByEntity entity }

def setCurrentWindow (s : State T C) (entity : Nat) (window : Option Nat) : State T C :=
  { s with currentWindowByEntity := Function.update s.currentWindowByEntity entity window }

/-- `ensure_window`: a window that the entity has stays. -/
def ensureWindow (s : State T C) (entity id : Nat) : State T C :=
  { s.setCurrentWindow entity (some ((s.currentWindowByEntity entity).getD id)) with
    requests := s.requests ++ [(entity, id)] }

/-! ### Effects -/

/-- The window of a new entity is that of its creation. -/
def seedWindow (s : State T C) (entity : Nat) (window : Option Nat) : State T C :=
  { s with
    currentWindowByEntity :=
      match window with
      | some id => Function.update s.currentWindowByEntity entity (some id)
      | none    => s.currentWindowByEntity }

/-- The observers of a type are taken out of their set. -/
def startAnnouncement (s : State T C) (entity : Nat) (tid : T) (window : Option Nat) :
    State T C :=
  match s.newEntityObservers.subscribers tid with
  | none      => s
  | some none => s
  | some (some subscribers) =>
      { s with
        newEntityObservers := s.newEntityObservers.setEntry tid (some none)
        stack := .announce entity tid window none subscribers.toList [] :: s.stack }

/-- `apply_entity_created_effect` up to its first observer; the flush is the innermost
    call. -/
def applyEntityCreated (s : State T C) (entity : Nat) (tid : T) (window : Option Nat) :
    State T C :=
  (s.seedWindow entity window).startAnnouncement entity tid window

/-- One round of the loop; the flush is the innermost call. -/
def flushEffects (s : State T C) (stack : List (Frame T C)) : State T C :=
  match s.pendingEffects with
  | [] => { s with stack := stack }
  | .other :: pendingEffects =>
      { s with pendingEffects := pendingEffects, stack := .handler :: s.stack }
  | .entityCreated entity tid window :: pendingEffects =>
      { s with pendingEffects := pendingEffects }.applyEntityCreated entity tid window

/-- The turn of the next observer of an announcement, or its end. -/
def announceNext (s : State T C) (entity : Nat) (tid : T) (window : Option Nat)
    (remaining kept : List (Nat × C)) (stack : List (Frame T C)) :
    Except WindowPanic (State T C) :=
  match remaining with
  | [] =>
      .ok { s with
        newEntityObservers := s.newEntityObservers.mergeBack tid kept
        stack := stack }
  | (subscriberId, callback) :: rest =>
      let observers := s.newEntityObservers
      if !observers.active subscriberId then
        .ok { s with
          stack := .announce entity tid window none rest (kept ++ [(subscriberId, callback)]) ::
            stack }
      else if observers.dropped subscriberId then
        .ok { s with stack := .announce entity tid window none rest kept :: stack }
      else
        let s := { s with
          stack := .announce entity tid window (some (subscriberId, callback)) rest kept :: stack }
        match window with
        | none    => .ok { s with stack := .handler :: s.stack }
        | some id =>
            match s.takeWindow id with
            | some s => .ok s
            | none   => .error .expectWindow

/-- An announcement goes on. -/
def announce (s : State T C) (entity : Nat) (tid : T) (window : Option Nat)
    (called : Option (Nat × C)) (remaining kept : List (Nat × C)) (stack : List (Frame T C)) :
    Except WindowPanic (State T C) :=
  match called with
  -- the observer that was called stays, unless it was dropped meanwhile
  | some (subscriberId, callback) =>
      let kept := if s.newEntityObservers.dropped subscriberId then kept
        else kept ++ [(subscriberId, callback)]
      .ok { s with stack := .announce entity tid window none remaining kept :: stack }
  | none => s.announceNext entity tid window remaining kept stack

/-! ### Steps -/

/-- Code may use the app: a call that runs code is the innermost one. -/
def runsCode (s : State T C) : Bool :=
  match s.stack with
  | .update :: _ | .window _ _ :: _ | .opening _ _ _ :: _ | .handler :: _ => true
  | _ => false

/-- Code may start an update, also where nothing is running. -/
def mayStart (s : State T C) : Bool := s.stack.isEmpty || s.runsCode

/-- One step; `none` if the action is not possible. -/
def step (s : State T C) : Action T C → Option (Except WindowPanic (State T C))
  | .startUpdate => if s.mayStart then some (.ok s.startUpdate) else none
  | .reserveEntity => if s.runsCode then some (.ok s.reserveEntity) else none
  | .newEntity entity tid =>
      match s.stack with
      | .update :: _ => if s.live entity then some (.ok (s.newEntity entity tid)) else none
      | _ => none
  | .pushEffect =>
      if s.runsCode then some (.ok { s with pendingEffects := s.pendingEffects ++ [.other] })
      else none
  | .observe op =>
      if s.runsCode then
        some (.ok { s with newEntityObservers := s.newEntityObservers.apply op })
      else none
  | .openWindow => if s.mayStart then some (.ok s.openWindow) else none
  | .openWindowFails =>
      if s.mayStart then some (.ok { s.startUpdate with nextWindow := s.nextWindow + 1 })
      else none
  | .updateWindow id => if s.mayStart then some (.ok (s.updateWindowId id)) else none
  | .withWindow entity => if s.mayStart then some (.ok (s.withWindow entity)) else none
  | .removeWindow id =>
      if s.runsCode then some (.ok { s with stack := s.stack.map (markRemoved id) }) else none
  | .recordEntitiesAccessed id entities =>
      if s.runsCode ∧ s.stack.any (holds id) ∧ entities.all (· < s.nextEntity) then
        some (.ok (s.recordEntitiesAccessed id entities))
      else none
  | .ensureWindow entity id =>
      if s.runsCode ∧ s.stack.any (holds id) ∧ s.live entity then
        some (.ok (s.ensureWindow entity id))
      else none
  | .returns =>
      match s.stack with
      | .update :: stack => some (.ok (s.finishUpdate stack))
      | .window id removed :: stack => some (s.trail id removed stack)
      | .opening id removed drawing :: stack => some (s.opened id removed drawing stack)
      | .handler :: stack => some (.ok { s with stack := stack })
      | _ => none
  | .releaseEntity entity =>
      match s.stack with
      | .flush :: _ =>
          -- a pending announcement has a handle
          if s.live entity && !s.pendingEffects.any (Effect.holds entity) then
            some (.ok { s.setCurrentWindow entity none with
              live := Function.update s.live entity false
              stack := .handler :: s.stack })
          else none
      | _ => none
  | .releaseFocusHandles =>
      match s.stack with
      | .flush :: _ => some (.ok { s with stack := .handler :: s.stack })
      | _ => none
  | .next =>
      match s.stack with
      | .flush :: stack => some (.ok (s.flushEffects stack))
      | .announce entity tid window called remaining kept :: stack =>
          some (s.announce entity tid window called remaining kept stack)
      | .finishUpdate :: stack =>
          some (.ok { s with
            flushingEffects := false
            pendingUpdates := s.pendingUpdates - 1
            stack := stack })
      | _ => none

/-- The app with the code that uses it. -/
def machine (T C : Type) [DecidableEq T] : Machine WindowPanic (State T C) (Action T C) where
  start := start
  step := step

end State

end Windows

end Gpui
