import Gpui.Keymap.DispatchTree
import Gpui.Text.LineLayoutCache
import Gpui.Window.DeferredDraws

/-! # Prepaint transactions: the model

    `transact` runs a prepaint, and if it fails cuts back what the prepaint has put into the
    next frame.  A list prepaints its items this way: when one of them asks to be scrolled
    into view, all are prepainted again.

    What the prepaint does is a run of small steps.  An element pushes a node, prepaints and
    pops the node, and the state of an element is out while its closure runs, so these come
    in pairs; the calls that are open go with the state. -/

namespace Gpui

open Dispatch

/-! ## The next frame -/

structure TooltipRequest (T : Type) where
  id : Nat
  tooltip : T
deriving DecidableEq

/-- A deferred draw; `element` is the element with the styles and masks around it. -/
structure DeferredRequest (E : Type) where
  currentView : Nat
  parentNode : Nat
  priority : Nat
  element : E
deriving DecidableEq

/-- What a prepaint writes of the next frame.  `L`, `T`, `E`, `K` and `S` are listeners,
    tooltips, elements, the keys of element states and the states. -/
structure PrepaintFrame (X L T E K S : Type) where
  hitboxes : List (Hitbox X)
  tooltipRequests : List (Option (TooltipRequest T))
  deferredDraws : List (DeferredRequest E)
  dispatchTree : Dispatch.DispatchTree L
  accessedElementStates : List K
  elementStates : K → Option S
  focus : Option Nat

structure PrepaintStateIndex where
  hitboxesIndex : Nat
  tooltipsIndex : Nat
  deferredDrawsIndex : Nat
  dispatchTreeIndex : Nat
  accessedElementStatesIndex : Nat
  lineLayoutIndex : LineLayoutIndex

/-- The part of a window that a prepaint changes. -/
structure PrepaintWindow (X L T E K S : Type) [Field X] [LinearOrder X] where
  nextFrame : PrepaintFrame X L T E K S
  /-- The element states of the frame that is shown. -/
  renderedStates : K → Option S
  focus : Option Nat
  nextHitboxId : Nat
  nextTooltipId : Nat
  textSystem : LineLayoutCache X

/-- What is done in a prepaint.  The content mask and the view are those of the window at
    that time. -/
inductive PrepaintOp (X T E K S : Type) where
  | insertHitbox (bounds contentMask : Bounds X) (behavior : HitboxBehavior)
  | setTooltip (tooltip : T)
  | deferDraw (currentView priority : Nat) (element : E)
  | pushNode
  | popNode
  | setFocusHandle (id : Nat)
  | setViewId (viewId : Nat)
  /-- `with_element_state` up to its closure, and after it. -/
  | takeElementState (key : K)
  | putElementState (state : S)
  | layoutLine (text : List Char) (fontSize : X) (runs : List FontRun) (forceWidth : Option X)
  | layoutWrappedLine (text : List Char) (fontSize : X) (runs : List FontRun)
      (wrapWidth : Option X) (maxLines : Option Nat)

/-- A call that is open: the prepaint of an element, or the closure that has a state. -/
inductive PrepaintCall (K : Type) where
  | element
  | elementState (key : K)
deriving DecidableEq

namespace PrepaintWindow

variable {X L T E K S : Type} [Field X] [LinearOrder X]

def prepaintIndex (self : PrepaintWindow X L T E K S) : PrepaintStateIndex where
  hitboxesIndex := self.nextFrame.hitboxes.length
  tooltipsIndex := self.nextFrame.tooltipRequests.length
  deferredDrawsIndex := self.nextFrame.deferredDraws.length
  dispatchTreeIndex := self.nextFrame.dispatchTree.len
  accessedElementStatesIndex := self.nextFrame.accessedElementStates.length
  lineLayoutIndex := self.textSystem.layoutIndex

/-- What `transact` does after an error. -/
def rollBack (self : PrepaintWindow X L T E K S) (index : PrepaintStateIndex) :
    Run (PrepaintWindow X L T E K S) := do
  let frame := self.nextFrame
  let dispatchTree ← frame.dispatchTree.truncate index.dispatchTreeIndex
  .ok { self with
    nextFrame := { frame with
      hitboxes := frame.hitboxes.take index.hitboxesIndex
      tooltipRequests := frame.tooltipRequests.take index.tooltipsIndex
      deferredDraws := frame.deferredDraws.take index.deferredDrawsIndex
      dispatchTree := dispatchTree
      accessedElementStates :=
        frame.accessedElementStates.take index.accessedElementStatesIndex }
    textSystem := self.textSystem.truncateLayouts index.lineLayoutIndex }

/-! ## The steps of a prepaint -/

def insertHitbox (self : PrepaintWindow X L T E K S) (bounds contentMask : Bounds X)
    (behavior : HitboxBehavior) : PrepaintWindow X L T E K S :=
  { self with
    -- no deferred draw is at work
    nextFrame := { self.nextFrame with
      hitboxes := self.nextFrame.hitboxes ++
        [⟨self.nextHitboxId, bounds, contentMask, behavior, none⟩] }
    nextHitboxId := (self.nextHitboxId + 1) % 2 ^ 64 }

def setTooltip (self : PrepaintWindow X L T E K S) (tooltip : T) : PrepaintWindow X L T E K S :=
  { self with
    nextFrame := { self.nextFrame with
      tooltipRequests := self.nextFrame.tooltipRequests ++ [some ⟨self.nextTooltipId, tooltip⟩] }
    nextTooltipId := self.nextTooltipId + 1 }

def deferDraw (self : PrepaintWindow X L T E K S) (currentView priority : Nat) (element : E) :
    Run (PrepaintWindow X L T E K S) :=
  match self.nextFrame.dispatchTree.nodeStack.head? with
  | none => .error .unwrapNone
  | some parentNode =>
      .ok { self with
        nextFrame := { self.nextFrame with
          deferredDraws := self.nextFrame.deferredDraws ++
            [⟨currentView, parentNode, priority, element⟩] } }

/-- The dispatch tree is written. -/
def writeTree (self : PrepaintWindow X L T E K S) (op : Op L) :
    Run (PrepaintWindow X L T E K S) :=
  (self.nextFrame.dispatchTree.apply op).map fun tree =>
    { self with nextFrame := { self.nextFrame with dispatchTree := tree } }

def setFocusHandle (self : PrepaintWindow X L T E K S) (id : Nat) :
    Run (PrepaintWindow X L T E K S) :=
  let self :=
    if self.focus = some id then
      { self with nextFrame := { self.nextFrame with focus := some id } }
    else self
  self.writeTree (.setFocusId id)

section States

variable [DecidableEq K]

/-- The state of an element is taken out of the next frame, or else of the last one. -/
def takeElementState (self : PrepaintWindow X L T E K S) (key : K) : PrepaintWindow X L T E K S :=
  let frame := { self.nextFrame with
    accessedElementStates := self.nextFrame.accessedElementStates ++ [key] }
  match frame.elementStates key with
  | some _ =>
      { self with
        nextFrame := { frame with
          elementStates := Function.update frame.elementStates key none } }
  | none =>
      { self with
        nextFrame := frame
        renderedStates := Function.update self.renderedStates key none }

def putElementState (self : PrepaintWindow X L T E K S) (key : K) (state : S) :
    PrepaintWindow X L T E K S :=
  { self with
    nextFrame := { self.nextFrame with
      elementStates := Function.update self.nextFrame.elementStates key (some state) } }

end States

def layoutLine (self : PrepaintWindow X L T E K S) (text : List Char) (fontSize : X)
    (runs : List FontRun) (forceWidth : Option X) : PrepaintWindow X L T E K S :=
  { self with textSystem := (self.textSystem.layoutLine text fontSize runs forceWidth).1 }

def layoutWrappedLine (self : PrepaintWindow X L T E K S) (text : List Char) (fontSize : X)
    (runs : List FontRun) (wrapWidth : Option X) (maxLines : Option Nat) :
    Run (PrepaintWindow X L T E K S) :=
  (self.textSystem.layoutWrappedLine text fontSize runs wrapWidth maxLines).map fun laidOut =>
    { self with textSystem := laidOut.1 }

end PrepaintWindow

/-! ## Transactions -/

/-- A transaction that is running: the window, and the calls that are open since it began,
    the innermost first. -/
structure Transaction (X L T E K S : Type) [Field X] [LinearOrder X] where
  window : PrepaintWindow X L T E K S
  calls : List (PrepaintCall K)

namespace Transaction

variable {X L T E K S : Type} [Field X] [LinearOrder X] [DecidableEq K]

/-- One step; `none` if it does not fit to the call that is open. -/
def step (s : Transaction X L T E K S) :
    PrepaintOp X T E K S → Option (Run (Transaction X L T E K S))
  | .insertHitbox bounds contentMask behavior =>
      some (.ok { s with window := s.window.insertHitbox bounds contentMask behavior })
  | .setTooltip tooltip => some (.ok { s with window := s.window.setTooltip tooltip })
  | .deferDraw currentView priority element =>
      some ((s.window.deferDraw currentView priority element).map fun window =>
        { s with window := window })
  | .pushNode =>
      some ((s.window.writeTree .pushNode).map fun window => ⟨window, .element :: s.calls⟩)
  | .popNode =>
      match s.calls with
      | .element :: calls =>
          some ((s.window.writeTree .popNode).map fun window => ⟨window, calls⟩)
      | _ => none
  | .setFocusHandle id =>
      some ((s.window.setFocusHandle id).map fun window => { s with window := window })
  | .setViewId viewId =>
      some ((s.window.writeTree (.setViewId viewId)).map fun window => { s with window := window })
  | .takeElementState key =>
      some (.ok ⟨s.window.takeElementState key, .elementState key :: s.calls⟩)
  | .putElementState state =>
      match s.calls with
      | .elementState key :: calls => some (.ok ⟨s.window.putElementState key state, calls⟩)
      | _ => none
  | .layoutLine text fontSize runs forceWidth =>
      some (.ok { s with window := s.window.layoutLine text fontSize runs forceWidth })
  | .layoutWrappedLine text fontSize runs wrapWidth maxLines =>
      some ((s.window.layoutWrappedLine text fontSize runs wrapWidth maxLines).map fun window =>
        { s with window := window })

/-- A transaction that begins in a window. -/
def machine (window : PrepaintWindow X L T E K S) :
    Machine Panic (Transaction X L T E K S) (PrepaintOp X T E K S) where
  start := ⟨window, []⟩
  step := step

end Transaction

/-! ## What a failed transaction has to restore -/

/-- The next frame has what another has of all that a transaction cuts back, and its focus. -/
structure PrepaintFrame.SameTrace {X L T E K S : Type} (a b : PrepaintFrame X L T E K S) :
    Prop where
  hitboxes : a.hitboxes = b.hitboxes
  tooltipRequests : a.tooltipRequests = b.tooltipRequests
  deferredDraws : a.deferredDraws = b.deferredDraws
  dispatchTree : a.dispatchTree = b.dispatchTree
  accessedElementStates : a.accessedElementStates = b.accessedElementStates
  focus : a.focus = b.focus

/-- If the transaction ends here with an error, the next frame is as it was. -/
def Transaction.LeavesNoTrace {X L T E K S : Type} [Field X] [LinearOrder X]
    (recorded : PrepaintWindow X L T E K S) (s : Transaction X L T E K S) : Prop :=
  s.calls = [] → ∃ window, s.window.rollBack recorded.prepaintIndex = .ok window ∧
    window.nextFrame.SameTrace recorded.nextFrame

end Gpui
