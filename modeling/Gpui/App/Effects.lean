import Gpui.App.Subscription

/-! # Effects: the model

    The app queues the effects of an update and applies them when the outermost update
    finishes.  The code that runs meanwhile (the closure of an update, an observer, a
    handler, a release callback) calls back into the app, so a run is described by small
    steps: the state of the app together with the stack of the calls that are running. -/

namespace Gpui

/-- `E` are the entity ids, `T` the type ids, and `P` what events and deferred callbacks
    carry. -/
inductive Effect (E T P : Type) where
  | notify (emitter : E)
  | emit (emitter : E) (eventType : T) (event : P)
  | refreshWindows
  | notifyGlobalObservers (globalType : T)
  | defer (callback : P)
  | entityCreated (entity : E) (tid : T) (window : Option Nat)
deriving DecidableEq

/-- The part of the app that queues and applies effects.  The event listeners and the
    other sets of subscribers are not part of it: the handlers of their effects are
    arbitrary code. -/
structure App (E T P C : Type) where
  pendingEffects : List (Effect E T P)
  pendingNotifications : Finset E
  pendingGlobalNotifications : Finset T
  flushingEffects : Bool
  pendingUpdates : Nat
  observers : SubscriberSet E C

namespace App

variable {E T P C : Type} [DecidableEq E] [DecidableEq T]

def new : App E T P C where
  pendingEffects := []
  pendingNotifications := ∅
  pendingGlobalNotifications := ∅
  flushingEffects := false
  pendingUpdates := 0
  observers := .new

def startUpdate (app : App E T P C) : App E T P C :=
  { app with pendingUpdates := app.pendingUpdates + 1 }

def pushEffect (app : App E T P C) (effect : Effect E T P) : App E T P C :=
  match effect with
  | .notify emitter =>
      if emitter ∈ app.pendingNotifications then app
      else { app with
        pendingNotifications := insert emitter app.pendingNotifications
        pendingEffects := app.pendingEffects ++ [effect] }
  | .notifyGlobalObservers globalType =>
      if globalType ∈ app.pendingGlobalNotifications then app
      else { app with
        pendingGlobalNotifications := insert globalType app.pendingGlobalNotifications
        pendingEffects := app.pendingEffects ++ [effect] }
  | _ => { app with pendingEffects := app.pendingEffects ++ [effect] }

/-- A push changes the queue and the sets of pending notifications only. -/
theorem pushEffect_frame (app : App E T P C) (effect : Effect E T P) :
    (app.pushEffect effect).observers = app.observers ∧
      (app.pushEffect effect).pendingUpdates = app.pendingUpdates ∧
      (app.pushEffect effect).flushingEffects = app.flushingEffects := by
  unfold pushEffect
  cases effect with
  | notify emitter =>
    by_cases h : emitter ∈ app.pendingNotifications
    · simp [h]
    · simp [h]
  | notifyGlobalObservers globalType =>
    by_cases h : globalType ∈ app.pendingGlobalNotifications
    · simp [h]
    · simp [h]
  | _ => exact ⟨rfl, rfl, rfl⟩

/-- What applying an effect does before its handlers run. -/
def clearPending (app : App E T P C) (effect : Effect E T P) : App E T P C :=
  match effect with
  | .notify emitter =>
      { app with pendingNotifications := app.pendingNotifications.erase emitter }
  | .notifyGlobalObservers globalType =>
      { app with
        pendingGlobalNotifications := app.pendingGlobalNotifications.erase globalType }
  | _ => app

theorem clearPending_frame (app : App E T P C) (effect : Effect E T P) :
    (app.clearPending effect).observers = app.observers ∧
      (app.clearPending effect).pendingUpdates = app.pendingUpdates ∧
      (app.clearPending effect).flushingEffects = app.flushingEffects := by
  cases effect with
  | _ => exact ⟨rfl, rfl, rfl⟩

end App

/-- A pass over the observers of an emitter: who was registered when it began, and who
    was reached so far, with whether the observer was called. -/
structure Delivery (E : Type) where
  emitter : E
  registered : List Nat
  reached : List (Nat × Bool)

/-- A call that is running. -/
inductive Frame (E C : Type) where
  /-- The closure of an update. -/
  | update
  /-- `finish_update`, in or after its flush. -/
  | finishUpdate
  /-- The quit observers. -/
  | shutdown
  /-- `shutdown`, in or after its flush. -/
  | finishShutdown
  /-- The loop of `flush_effects`. -/
  | flush
  /-- A release callback, or the windows told that a focus handle is gone. -/
  | release
  /-- The handlers of an effect that is no `Notify`. -/
  | handler
  /-- The pass of `apply_notify_effect`. -/
  | retain (delivery : Delivery E) (remaining kept : List (Nat × C))
  /-- The callback of an observer. -/
  | observer (subscriberId : Nat)

/-- The calls in which code runs that may use the app. -/
def Frame.runsCode {E C : Type} : Frame E C → Bool
  | .update | .shutdown | .release | .handler | .observer _ => true
  | .finishUpdate | .finishShutdown | .flush | .retain _ _ _ => false

/-- The app with the calls that are running, the innermost first, and what happened so
    far. -/
structure World (E T P C : Type) where
  app : App E T P C
  stack : List (Frame E C)
  /-- The effects that were put into the queue. -/
  pushed : List (Effect E T P)
  /-- The effects that were taken off the queue and applied. -/
  applied : List (Effect E T P)
  /-- The passes over observers that are over. -/
  deliveries : List (Delivery E)

namespace World

inductive Action (E T P C : Type) where
  /-- Code calls `update`. -/
  | startUpdate
  /-- The platform calls `shutdown`. -/
  | shutdown
  /-- Code notifies, emits, defers and so on. -/
  | pushEffect (effect : Effect E T P)
  /-- Code adds or drops an observer. -/
  | observe (op : SubscriberSet.Op E C)
  /-- The running code returns. -/
  | returns
  /-- The running observer returns, with the state of its callback. -/
  | answer (callback : C) (keep : Bool)
  /-- The flush releases an entity without handles. -/
  | releaseEntity (entity : E)
  /-- The flush releases a focus handle. -/
  | releaseFocusHandle
  /-- The app goes on with what it is doing. -/
  | next

variable {E T P C : Type} [DecidableEq E] [DecidableEq T]

def start : World E T P C where
  app := .new
  stack := []
  pushed := []
  applied := []
  deliveries := []

def pushEffect (w : World E T P C) (effect : Effect E T P) : World E T P C :=
  let app := w.app.pushEffect effect
  { w with
    app := app
    -- a notification that is pending already adds nothing
    pushed := w.pushed ++ app.pendingEffects.drop w.app.pendingEffects.length }

/-- The closure of an update returned. -/
def finishUpdate (w : World E T P C) (stack : List (Frame E C)) : World E T P C :=
  -- only the outermost update flushes, and not while a flush is running
  if !w.app.flushingEffects && w.app.pendingUpdates == 1 then
    { w with
      app := { w.app with flushingEffects := true }
      -- the counter goes down after the flush
      stack := .flush :: .finishUpdate :: stack }
  else
    { w with
      app := { w.app with pendingUpdates := w.app.pendingUpdates - 1 }
      stack := stack }

/-- `retain` takes the observers of the emitter out of the set, if they are there. -/
def applyNotifyEffect (w : World E T P C) (emitter : E) : World E T P C :=
  match w.app.observers.subscribers emitter with
  | none      => w
  | some none => w
  | some (some subscribers) =>
      { w with
        -- the entry stays, as the placeholder of the callbacks that are being called
        app := { w.app with observers := w.app.observers.setEntry emitter (some none) }
        stack := .retain ⟨emitter, subscribers.toList.map Prod.fst, []⟩ subscribers.toList []
          :: w.stack }

def applyEffect (w : World E T P C) (effect : Effect E T P) : World E T P C :=
  match effect with
  | .notify emitter => w.applyNotifyEffect emitter
  -- the windows are drawn by the platform, no handler of the app runs
  | .refreshWindows => w
  | _               => { w with stack := .handler :: w.stack }

/-- One round of the loop; the flush is the innermost call. -/
def flushEffects (w : World E T P C) (stack : List (Frame E C)) : World E T P C :=
  match w.app.pendingEffects with
  | [] => { w with stack := stack }
  | effect :: pendingEffects =>
      -- the effect is popped and its mark taken back before its handlers run
      let app := { w.app with pendingEffects := pendingEffects }
      applyEffect { w with app := app.clearPending effect, applied := w.applied ++ [effect] } effect

/-- The turn of the next observer of a pass, or the end of the pass. -/
def retain (w : World E T P C) (delivery : Delivery E) (remaining kept : List (Nat × C))
    (stack : List (Frame E C)) : World E T P C :=
  match remaining with
  | [] =>
      { w with
        app := { w.app with observers := w.app.observers.mergeBack delivery.emitter kept }
        stack := stack
        deliveries := w.deliveries ++ [delivery] }
  | (subscriberId, callback) :: rest =>
      let passed := { delivery with reached := delivery.reached ++ [(subscriberId, false)] }
      let called := { delivery with reached := delivery.reached ++ [(subscriberId, true)] }
      -- an observer that was not activated yet is kept and not called
      if !w.app.observers.active subscriberId then
        { w with stack := .retain passed rest (kept ++ [(subscriberId, callback)]) :: stack }
      else if w.app.observers.dropped subscriberId then
        -- dropped by an observer called before it in this pass
        { w with stack := .retain passed rest kept :: stack }
      else
        { w with stack := .observer subscriberId :: .retain called rest kept :: stack }

/-- The answer of an observer. -/
def answer (w : World E T P C) (subscriberId : Nat) (callback : C) (keep : Bool)
    (delivery : Delivery E) (remaining kept : List (Nat × C)) (stack : List (Frame E C)) :
    World E T P C :=
  -- the callback may have dropped its own subscription
  let stays := keep && !w.app.observers.dropped subscriberId
  { w with
    stack := .retain delivery remaining
      (if stays then kept ++ [(subscriberId, callback)] else kept) :: stack }

/-- Code may use the app: a call that runs code is the innermost one. -/
def runsCode (w : World E T P C) : Bool :=
  (w.stack.head?.map Frame.runsCode).getD false

/-- One step of a run; `none` if the action is not possible. -/
def step (w : World E T P C) : Action E T P C → Option (World E T P C)
  | .startUpdate =>
      if w.stack.isEmpty || w.runsCode then
        some { w with app := w.app.startUpdate, stack := .update :: w.stack }
      else none
  | .shutdown => if w.stack.isEmpty then some { w with stack := [.shutdown] } else none
  | .pushEffect effect => if w.runsCode then some (w.pushEffect effect) else none
  | .observe op =>
      if w.runsCode then
        some { w with app := { w.app with observers := w.app.observers.apply op } }
      else none
  | .returns =>
      match w.stack with
      | .update :: stack   => some (w.finishUpdate stack)
      | .shutdown :: stack => some { w with stack := .flush :: .finishShutdown :: stack }
      | .release :: stack  => some { w with stack := stack }
      | .handler :: stack  => some { w with stack := stack }
      | _                  => none
  | .answer callback keep =>
      match w.stack with
      | .observer subscriberId :: .retain delivery remaining kept :: stack =>
          some (w.answer subscriberId callback keep delivery remaining kept stack)
      | _ => none
  | .releaseEntity entity =>
      match w.stack with
      | .flush :: _ =>
          some { w with
            app := { w.app with observers := w.app.observers.remove entity }
            stack := .release :: w.stack }
      | _ => none
  | .releaseFocusHandle =>
      match w.stack with
      | .flush :: _ => some { w with stack := .release :: w.stack }
      | _           => none
  | .next =>
      match w.stack with
      | .flush :: stack => some (w.flushEffects stack)
      | .retain delivery remaining kept :: stack => some (w.retain delivery remaining kept stack)
      | .finishUpdate :: stack =>
          some { w with
            app := { w.app with
              flushingEffects := false
              pendingUpdates := w.app.pendingUpdates - 1 }
            stack := stack }
      | .finishShutdown :: stack => some { w with stack := stack }
      | _ => none

/-- The world after some steps. -/
def run (w : World E T P C) : List (Action E T P C) → Option (World E T P C)
  | []        => some w
  | a :: rest => (w.step a).bind (fun w => w.run rest)

/-- The states of the runs all whose steps meet a condition. -/
inductive Reaches (Allowed : World E T P C → Action E T P C → Prop) : World E T P C → Prop where
  | start : Reaches Allowed start
  | step : ∀ {w w' : World E T P C} (a : Action E T P C),
      Reaches Allowed w → Allowed w a → w.step a = some w' → Reaches Allowed w'

end World

end Gpui
