import Gpui.Keymap.Dispatch
import Gpui.Lib.Machine

/-! # Pending key input: the model

    A window keeps the keystrokes that may begin a chord, with the focus they were typed
    in.  The next key event takes them up, or their timer replays them.

    A key event calls code at several places: the interceptors, the actions and listeners
    of what it replays, the input handler, and the bindings it dispatches.  This code may
    move the focus or dispatch key events of its own, so a run is described by small
    steps, with the calls that are running. -/

namespace Gpui

/-! ## The rendered tree -/

/-- The dispatch tree of a frame, with its focusable nodes.  A node is pushed after its
    parent, and the root is the first. -/
structure FocusTree (F : Type) where
  nodes : List DispatchNode
  parents : List (Option Nat)
  focusableNodeIds : F → Option Nat
  parent_lt : ∀ id parent : Nat, parents[id]? = some (some parent) → parent < id
  focusable_lt : ∀ focus id, focusableNodeIds focus = some id → id < nodes.length
  nodes_ne_nil : nodes ≠ []

namespace FocusTree

variable {A F : Type} [Action A]

def dispatchTree (tree : FocusTree F) (keymap : Keymap A) : DispatchTree A :=
  ⟨tree.nodes, keymap⟩

/-- The loop of `dispatch_path`, with a bound: the node and its ancestors. -/
def ancestors (tree : FocusTree F) : Nat → Nat → List Nat
  | 0, _ => []
  | bound + 1, nodeId =>
      nodeId :: match tree.parents[nodeId]? with
        | some (some parent) => tree.ancestors bound parent
        | _                  => []

/-- From the root to the node. -/
def dispatchPath (tree : FocusTree F) (target : Nat) : List Nat :=
  (tree.ancestors (target + 1) target).reverse

/-- `focus_node_id_in_rendered_frame`: without a focused node it is the root. -/
def focusNodeId (tree : FocusTree F) (focus : Option F) : Nat :=
  (focus.bind tree.focusableNodeIds).getD 0

/-- The dispatch path of a focus. -/
def pathOf (tree : FocusTree F) (focus : Option F) : List Nat :=
  tree.dispatchPath (tree.focusNodeId focus)

end FocusTree

/-! ## The window -/

/-- The events of the keyboard.  Other events of theirs, and changes of the modifiers that
    make no keystroke, only call listeners. -/
inductive KeyEvent where
  | keyDown (keystroke : Keystroke)
  /-- A lone modifier was released. -/
  | modifier (keystroke : Keystroke)
  | other

namespace KeyEvent

def keystroke : KeyEvent → Option Keystroke
  | keyDown keystroke  => some keystroke
  | modifier keystroke => some keystroke
  | other              => none

/-- Whether the input handler is asked if it accepts text. -/
def asksInputHandler : KeyEvent → Bool
  | keyDown keystroke => keystroke.keyChar.isSome
  | _                 => false

end KeyEvent

structure PendingInput (F : Type) where
  keystrokes : List Keystroke
  focus : Option F
  needsTimeout : Bool
  /-- The timer, if it runs, is the one of the generation. -/
  timer : Bool
  generation : Option Nat

def PendingInput.default {F : Type} : PendingInput F := ⟨[], none, false, false, none⟩

/-- A call that is running. -/
inductive KeyCall (A F : Type) where
  /-- The interceptors of a key event. -/
  | intercepting (event : KeyEvent) (keystroke : Keystroke) (path : List Nat)
  /-- The event is about to be matched. -/
  | matching (event : KeyEvent) (keystroke : Keystroke) (path : List Nat)
  /-- `replay_pending_input`, between two keystrokes. -/
  | replaying (replays : List (Replay A))
  /-- The event was matched, and what it replays was replayed. -/
  | matched (event : KeyEvent) (path : List Nat) (currentlyPending : PendingInput F)
      (result : DispatchResult A)
  /-- The input handler is asked if it accepts text. -/
  | accepting (event : KeyEvent) (currentlyPending : PendingInput F)
      (result : DispatchResult A)
  /-- Actions, listeners and observers. -/
  | handler

/-- The part of a window that key events change, with the calls that are running, the
    innermost first. -/
structure KeyWindow (A F : Type) where
  /-- The tree of the frame that is shown. -/
  tree : FocusTree F
  focus : Option F
  focusEnabled : Bool
  pendingInput : Option (PendingInput F)
  nextGeneration : Nat
  stack : List (KeyCall A F)

namespace KeyWindow

inductive Action (F : Type) where
  /-- Code or the platform dispatches an event. -/
  | keyEvent (event : KeyEvent)
  /-- Another frame is shown; a key event draws one first if the window is dirty. -/
  | draw (tree : FocusTree F)
  | focus (focus : F)
  | blur
  | disableFocus
  | clearPendingKeystrokes
  /-- The timer of a generation. -/
  | expire (generation : Nat)
  /-- The running code returns, and whether the event propagates, or text is accepted. -/
  | returns (flag : Bool)
  /-- The window goes on with what it is doing. -/
  | next

variable {A F : Type} [Gpui.Action A]

def start (tree : FocusTree F) : KeyWindow A F where
  tree := tree
  focus := none
  focusEnabled := true
  pendingInput := none
  nextGeneration := 0
  stack := []

/-- Code runs. -/
def runsCode (s : KeyWindow A F) : Bool :=
  match s.stack with
  | .intercepting _ _ _ :: _ => true
  | .accepting event _ _ :: _ => event.asksInputHandler
  | .handler :: _ => true
  | _ => false

/-- Code runs, or nothing does. -/
def mayStart (s : KeyWindow A F) : Bool := s.stack.isEmpty || s.runsCode

def blur (s : KeyWindow A F) : KeyWindow A F :=
  if s.focusEnabled then { s with focus := none } else s

def disableFocus (s : KeyWindow A F) : KeyWindow A F :=
  { s.blur with focusEnabled := false }

variable [DecidableEq F]

def setFocus (s : KeyWindow A F) (focus : F) : KeyWindow A F :=
  if !s.focusEnabled || s.focus == some focus then s
  else { s with focus := some focus, pendingInput := none }

/-- The pending input that a key event takes up. -/
def takenInput (s : KeyWindow A F) : PendingInput F :=
  let currentlyPending := s.pendingInput.getD .default
  if currentlyPending.focus.isSome && currentlyPending.focus != s.focus then .default
  else currentlyPending

/-- `dispatch_key_event` from the drawn frame up to the interceptors. -/
def keyEvent (s : KeyWindow A F) (event : KeyEvent) : KeyWindow A F :=
  let path := s.tree.pathOf s.focus
  match event, event.keystroke with
  | .keyDown _, some keystroke =>
      { s with stack := .intercepting event keystroke path :: s.stack }
  | _, some keystroke => { s with stack := .matching event keystroke path :: s.stack }
  | _, none => { s with stack := .handler :: s.stack }

variable [Target]

/-- The match of a key event, which is running, and the start of the replay. -/
def matchKey (keymap : Keymap A) (s : KeyWindow A F) (event : KeyEvent)
    (keystroke : Keystroke) (path : List Nat) (stack : List (KeyCall A F)) :
    Run (KeyWindow A F) := do
  let currentlyPending := s.takenInput
  let result ← (s.tree.dispatchTree keymap).dispatchKey currentlyPending.keystrokes keystroke path
  .ok { s with
    pendingInput := none
    stack := .replaying result.toReplay :: .matched event path currentlyPending result :: stack }

/-- After the replay: the keystrokes are pending, or bindings and listeners run. -/
def matched (s : KeyWindow A F) (event : KeyEvent) (currentlyPending : PendingInput F)
    (result : DispatchResult A) (stack : List (KeyCall A F)) : KeyWindow A F :=
  if !result.pending.isEmpty then
    { s with
      stack := .accepting event { currentlyPending with
        timer := false
        keystrokes := result.pending
        focus := s.focus } result :: stack }
  else { s with stack := .handler :: stack }

/-- The keystrokes are stored, and the observers of the pending input run. -/
def store (s : KeyWindow A F) (currentlyPending : PendingInput F) (hasBinding accepts : Bool)
    (stack : List (KeyCall A F)) : KeyWindow A F :=
  let needsTimeout := currentlyPending.needsTimeout || (hasBinding || accepts)
  if needsTimeout then
    { s with
      pendingInput := some { currentlyPending with
        needsTimeout := needsTimeout
        generation := some s.nextGeneration
        timer := true }
      nextGeneration := s.nextGeneration + 1
      stack := .handler :: stack }
  else
    { s with
      pendingInput := some { currentlyPending with
        needsTimeout := needsTimeout
        timer := false }
      stack := .handler :: stack }

/-- A timer expires.  One of another generation does nothing. -/
def expire (keymap : Keymap A) (s : KeyWindow A F) (generation : Nat) : Run (KeyWindow A F) :=
  match s.pendingInput with
  | none => .ok s
  | some pending =>
      if pending.generation ≠ some generation then .ok s
      else if pending.focus ≠ s.focus then .ok { s with pendingInput := none }
      else do
        let toReplay ← (s.tree.dispatchTree keymap).flushDispatch pending.keystrokes
          (s.tree.pathOf s.focus)
        .ok { s with
          pendingInput := none
          stack := .handler :: .replaying toReplay :: s.stack }

/-- One step; `none` if the action is not possible. -/
def step (keymap : Keymap A) (s : KeyWindow A F) :
    KeyWindow.Action F → Option (Run (KeyWindow A F))
  | .keyEvent event => if s.mayStart then some (.ok (s.keyEvent event)) else none
  | .draw tree => if s.mayStart then some (.ok { s with tree := tree }) else none
  | .focus focus => if s.mayStart then some (.ok (s.setFocus focus)) else none
  | .blur => if s.mayStart then some (.ok s.blur) else none
  | .disableFocus => if s.mayStart then some (.ok s.disableFocus) else none
  | .clearPendingKeystrokes =>
      if s.mayStart then some (.ok { s with pendingInput := none }) else none
  | .expire generation =>
      if s.stack.isEmpty ∧ generation < s.nextGeneration then some (s.expire keymap generation)
      else none
  | .returns flag =>
      match s.stack with
      | .intercepting event keystroke path :: stack =>
          if flag then some (.ok { s with stack := .matching event keystroke path :: stack })
          else some (.ok { s with stack := .handler :: stack })
      | .accepting event currentlyPending result :: stack =>
          -- only a handler that is asked accepts
          some (.ok (s.store currentlyPending result.pendingHasBinding
            (flag && event.asksInputHandler) stack))
      | .handler :: stack => some (.ok { s with stack := stack })
      | _ => none
  | .next =>
      match s.stack with
      | .matching event keystroke path :: stack =>
          some (s.matchKey keymap event keystroke path stack)
      | .replaying [] :: stack => some (.ok { s with stack := stack })
      -- the actions of a replay, or its listeners and the input handler
      | .replaying (_ :: replays) :: stack =>
          some (.ok { s with stack := .handler :: .replaying replays :: stack })
      | .matched event _ currentlyPending result :: stack =>
          some (.ok (s.matched event currentlyPending result stack))
      | _ => none

/-- A window that opens with a frame, in an application whose bindings stay the same. -/
def machine (keymap : Keymap A) (tree : FocusTree F) :
    Machine Panic (KeyWindow A F) (KeyWindow.Action F) where
  start := start tree
  step := step keymap

end KeyWindow

end Gpui
