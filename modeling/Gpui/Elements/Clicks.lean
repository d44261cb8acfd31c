import Gpui.Lib.Machine
import Gpui.Panic
import Gpui.Scene.Geometry

/-! # Mouse clicks: the model

    The listeners that an element paints remember a press until the button is released.  A
    mouse event goes to the listeners of a window twice, to capture it and when it bubbles up,
    unless a listener stops it.  The press is taken over when a release is captured, and the
    click goes to the listeners of the element when the release bubbles up.

    One element is modelled, so that whether an event reaches it and whether it is hovered
    then is told by the event.  Coordinates are in an ordered field. -/

namespace Gpui

inductive NavigationDirection where
  | back
  | forward
deriving DecidableEq, Repr

inductive MouseButton where
  | left
  | right
  | middle
  | navigate (direction : NavigationDirection)
deriving DecidableEq, Repr

namespace Clicks

/-- A press.  After the comment follows its history. -/
structure MouseDownEvent (X : Type) where
  button : MouseButton
  position : Point X
  -- when it happened
  time : Nat

/-- A release.  After the comment follows its history. -/
structure MouseUpEvent where
  button : MouseButton
  -- when it happened
  time : Nat

structure MouseClickEvent (X : Type) where
  down : MouseDownEvent X
  up : MouseUpEvent

/-- The listeners that an element was given. -/
structure Interactivity where
  clickListeners : Nat
  auxClickListeners : Nat
  dragListener : Bool

inductive ListenerKind where
  | click
  | auxClick
deriving DecidableEq, Repr

/-- A click that a listener was called with. -/
structure Delivery (X : Type) where
  kind : ListenerKind
  listener : Nat
  event : MouseClickEvent X

/-- What happened in the window. -/
inductive Event where
  /-- A press, and whether the element received it while hovered. -/
  | pressed (button : MouseButton) (received : Bool)
  /-- A release, and whether the element was hovered. -/
  | released (button : MouseButton) (hovered : Bool)
  | dragStarted
  | other
deriving DecidableEq, Repr

/-- The variables of the listeners.  After the comment follows the history of the window. -/
structure State (X : Type) where
  /-- Shared by frames. -/
  pendingMouseDown : Option (MouseDownEvent X)
  /-- Of the listeners of this frame. -/
  capturedMouseDown : Option (MouseDownEvent X)
  dragListener : Bool
  /-- Whether something is dragged, whoever started it. -/
  activeDrag : Bool
  -- what happened so far, and the clicks that were delivered
  history : List Event
  delivered : List (Delivery X)

/-- Events reach the element unless a listener before it stops them. -/
inductive Action (X : Type) where
  | mouseDown (button : MouseButton) (position : Point X) (hovered bubbles : Bool)
  | mouseMove (position : Point X) (bubbles : Bool)
  | mouseUp (button : MouseButton) (hovered captures bubbles : Bool)
  /-- Other code starts or stops a drag. -/
  | startDrag
  | stopDrag
  | redraw

namespace Interactivity

/-- Whether an element paints the listeners. -/
def listens (self : Interactivity) : Bool :=
  0 < self.clickListeners || 0 < self.auxClickListeners || self.dragListener

/-- The listeners that clicks with a button go to. -/
def kindOf (button : MouseButton) : ListenerKind :=
  if button = .left then .click else .auxClick

def count (self : Interactivity) : ListenerKind → Nat
  | .click    => self.clickListeners
  | .auxClick => self.auxClickListeners

end Interactivity

namespace State

variable {X : Type}

def new (listeners : Interactivity) : State X where
  pendingMouseDown := none
  capturedMouseDown := none
  dragListener := listeners.dragListener
  activeDrag := false
  history := []
  delivered := []

/-- The next event. -/
def now (s : State X) : Nat := s.history.length

def note (s : State X) (event : Event) : State X := { s with history := s.history ++ [event] }

variable (listeners : Interactivity)

/-- Whether the element remembers a press that bubbles up to it. -/
def remembers (button : MouseButton) : Bool :=
  listeners.listens && (button = .left || 0 < listeners.auxClickListeners)

def mouseDown (s : State X) (button : MouseButton) (position : Point X)
    (hovered bubbles : Bool) : State X :=
  if bubbles && remembers listeners button && hovered then
    { s with pendingMouseDown := some ⟨button, position, s.now⟩ }
  else s

/-- `const DRAG_THRESHOLD: f64 = 2.` -/
def dragThreshold [Field X] : X := (2 : Nat)

/-- `(position - start).magnitude() > DRAG_THRESHOLD`, without the root. -/
def beyondThreshold [Field X] [LinearOrder X] (position start : Point X) : Prop :=
  dragThreshold * dragThreshold <
    (position.x - start.x) * (position.x - start.x) +
      (position.y - start.y) * (position.y - start.y)

instance [Field X] [LinearOrder X] (position start : Point X) :
    Decidable (beyondThreshold position start) :=
  inferInstanceAs (Decidable (_ < _))

/-- The listener for moves.  It takes the drag listener even when it cannot call it. -/
def mouseMove [Field X] [LinearOrder X] (s : State X) (position : Point X) (bubbles : Bool) :
    State X :=
  if bubbles then
    match s.pendingMouseDown with
    | some mouseDown =>
        if ¬ s.activeDrag ∧ beyondThreshold position mouseDown.position ∧ s.dragListener then
          if mouseDown.button = .left then
            { s with pendingMouseDown := none, dragListener := false, activeDrag := true }
          else { s with dragListener := false }
        else s
    | none => s
  else s

/-- The listener for releases that are captured. -/
def captureUp (s : State X) (hovered : Bool) : State X :=
  match s.pendingMouseDown with
  | some mouseDown =>
      if hovered then
        { s with pendingMouseDown := none, capturedMouseDown := some mouseDown }
      else { s with pendingMouseDown := none }
  | none => s

/-- The calls of the listeners with a click. -/
def deliveries (mouseDown : MouseDownEvent X) (mouseUp : MouseUpEvent) : List (Delivery X) :=
  (List.range (listeners.count (Interactivity.kindOf mouseDown.button))).map
    (fun listener => ⟨Interactivity.kindOf mouseDown.button, listener, ⟨mouseDown, mouseUp⟩⟩)

/-- The listener for releases that bubble up. -/
def bubbleUp (s : State X) (button : MouseButton) : State X :=
  match s.capturedMouseDown with
  | some mouseDown =>
      { s with
        capturedMouseDown := none
        delivered := s.delivered ++ deliveries listeners mouseDown ⟨button, s.now⟩ }
  | none => s

/-- A release that was dispatched ends every drag. -/
def mouseUp (s : State X) (button : MouseButton) (hovered captures bubbles : Bool) : State X :=
  let s := if captures then s.captureUp hovered else s
  let s := if bubbles then s.bubbleUp listeners button else s
  { s with activeDrag := false }

/-- New listeners are painted.  The layout before forgets the press if something is dragged. -/
def redraw (s : State X) : State X :=
  { s with
    pendingMouseDown := if s.activeDrag then none else s.pendingMouseDown
    capturedMouseDown := none
    dragListener := listeners.dragListener }

/-- Whether a move starts a drag of the element. -/
def startsDrag [Field X] [LinearOrder X] (s : State X) (position : Point X) (bubbles : Bool) :
    Bool :=
  !s.activeDrag && (s.mouseMove position bubbles).activeDrag

def step [Field X] [LinearOrder X] (s : State X) : Action X → Option (Run (State X))
  | .mouseDown button position hovered bubbles =>
      some (.ok ((s.mouseDown listeners button position hovered bubbles).note
        (.pressed button (bubbles && hovered))))
  | .mouseMove position bubbles =>
      some (.ok ((s.mouseMove position bubbles).note
        (if s.startsDrag position bubbles then .dragStarted else .other)))
  | .mouseUp button hovered captures bubbles =>
      -- what is stopped while it is captured does not bubble up
      if bubbles = true → captures = true then
        some (.ok ((s.mouseUp listeners button hovered captures bubbles).note
          (.released button hovered)))
      else none
  | .startDrag => some (.ok ({ s with activeDrag := true }.note .dragStarted))
  | .stopDrag => some (.ok ({ s with activeDrag := false }.note .other))
  | .redraw => some (.ok ((s.redraw listeners).note .other))

end State

def machine (X : Type) [Field X] [LinearOrder X] (listeners : Interactivity) :
    Machine Panic (State X) (Action X) where
  start := .new listeners
  step := State.step listeners

end Clicks

end Gpui
