import Gpui.Lib.Machine
import Gpui.Window.Element
import Gpui.Window.Tracking

/-! # Cached views and the entities they show: the model

    A frame records the entities that are read or updated while it is drawn; when one of
    them is notified, the window is drawn again.  A cached view may be reused in later
    frames, in which none of its code runs: the entities it accessed when it was drawn are
    then recorded again.

    With the code's own data goes the history that the property is about: what was accessed
    for which view. -/

namespace Gpui

open StableSort

namespace CachedViews

/-- The entities that the code of an element reads or updates. -/
structure Accesses (E : Type) where
  layout : List E
  prepaint : List E
  paint : List E

/-- The state of a cached view.  After the comment follows its history. -/
structure ViewElementState (E K : Type) where
  cacheKey : K
  accessedEntities : Finset E
  -- what the frame had accessed before the view was drawn in it
  earlier : Finset E
  -- what the render, the layout and the prepaint of the view accessed
  inside : Finset E
  -- what was accessed for all that the view shows
  shown : Finset E

/-- What happened in a frame, below which cached views that are drawn. -/
inductive Touch (V E : Type) where
  | entity (owners : List V) (entity : E)
  | reuse (owners : List V) (id : V)

structure DeferredDraw (V E K : Type) where
  priority : Nat
  element : Element (Accesses E) V E K
  -- the cached views it is deferred in
  owners : List V

/-- A window and the app while a frame is drawn.  After the comment follows the history. -/
structure Drawing (V E K : Type) where
  accessedEntities : Finset E
  refreshing : Bool
  elementStates : V → Option (ViewElementState E K)
  deferredDraws : List (DeferredDraw V E K)
  -- all that happened
  log : List (Touch V E)

/-- The ways a draw can panic. -/
inductive DrawPanic where
  /-- "Exceeded maximum (10) deferred depth". -/
  | deferredDepth
  /-- "must call prepaint before paint". -/
  | notPrepainted
deriving DecidableEq, Repr

variable {W V E K : Type}

/-! ### Layout -/

mutual

/-- What laying an element out accesses.  A cached view has a style of its own, and is not
    rendered for it. -/
def layout : Element (Accesses E) V E K → List E
  | .plain code children => code.layout ++ layoutAll children
  | .cached _ _ _ _ _    => []
  | .deferred _ child    => layout child

def layoutAll : List (Element (Accesses E) V E K) → List E
  | []               => []
  | element :: after => layout element ++ layoutAll after

end

variable [DecidableEq V] [DecidableEq E] [DecidableEq K]

namespace Drawing

def access (d : Drawing V E K) (owners : List V) (entities : List E) : Drawing V E K :=
  { d with
    accessedEntities := d.accessedEntities ∪ entities.toFinset
    log := d.log ++ entities.map (.entity owners) }

/-- The reuse of a view as far as entities go: `extend_accessed`. -/
def reuse (d : Drawing V E K) (owners : List V) (id : V) (state : ViewElementState E K) :
    Drawing V E K :=
  { d with
    accessedEntities := d.accessedEntities ∪ state.accessedEntities
    elementStates := Function.update d.elementStates id (some state)
    log := d.log ++ [.reuse owners id] }

/-- The entities that were accessed since. -/
def accessedSince (d : Drawing V E K) (start : Nat) : Finset E :=
  ((d.log.drop start).filterMap fun touch =>
    match touch with
    | .entity _ entity => some entity
    | .reuse _ _       => none).toFinset

/-- `detect_accessed_entities` at its end: the view is drawn. -/
def drawn (d start : Drawing V E K) (id : V) (key : K) : Drawing V E K :=
  { d with
    refreshing := start.refreshing
    elementStates := Function.update d.elementStates id (some {
      cacheKey := key
      accessedEntities := d.accessedEntities \ start.accessedEntities
      earlier := start.accessedEntities
      inside := d.accessedSince start.log.length
      shown := ∅ }) }

end Drawing

/-! ### Prepaint -/

section Prepaint

variable (context : CacheContext E) (rendered : V → Option (ViewElementState E K))

/-- The state under which a view is reused.  The ids of elements are unique, so the frame
    that is drawn has no state of the view yet. -/
def reusable (id : V) (view : E) (key : K) (refreshing : Bool) : Option (ViewElementState E K) :=
  (rendered id).filter fun state => context.reuses state.cacheKey view key refreshing

mutual

/-- The element is prepainted.  Also returned are the accesses of its paint. -/
def prepaint (owners : List V) : Element (Accesses E) V E K → Drawing V E K →
    Drawing V E K × List (List V × E)
  | .plain code children, d =>
      let prepainted := prepaintAll owners children (d.access owners code.prepaint)
      (prepainted.1, code.paint.map (owners, ·) ++ prepainted.2)
  | .cached id view key paintedKey content, d =>
      match reusable context rendered id view key d.refreshing with
      | some state => (d.reuse owners id state, [])
      | none =>
          -- what is inside is drawn again, whatever its own state
          let started := { d.access (id :: owners) (layout content) with refreshing := true }
          let prepainted := prepaint (id :: owners) content started
          (prepainted.1.drawn d id paintedKey, prepainted.2)
  | .deferred priority child, d =>
      ({ d with deferredDraws := d.deferredDraws ++ [⟨priority, child, owners⟩] }, [])

def prepaintAll (owners : List V) : List (Element (Accesses E) V E K) → Drawing V E K →
    Drawing V E K × List (List V × E)
  | [], d => (d, [])
  | element :: after, d =>
      let prepainted := prepaint owners element d
      let rest := prepaintAll owners after prepainted.1
      (rest.1, prepainted.2 ++ rest.2)

end

/-- A deferred draw is prepainted; the accesses of its paint are kept with its priority. -/
def prepaintDraw (r : Drawing V E K × List (Nat × List (List V × E)))
    (draw : DeferredDraw V E K) : Drawing V E K × List (Nat × List (List V × E)) :=
  let prepainted := prepaint context rendered draw.owners draw.element r.1
  (prepainted.1, r.2 ++ [(draw.priority, prepainted.2)])

/-- The rounds from one on; the first number counts down from the maximal depth. -/
def prepaintRounds : Nat → Nat → Drawing V E K × List (Nat × List (List V × E)) →
    Except DrawPanic (Drawing V E K × List (Nat × List (List V × E)))
  | depthLeft, roundStart, r =>
      if roundStart = r.1.deferredDraws.length then .ok r
      else
        match depthLeft with
        | 0 => .error .deferredDepth
        | depthLeft + 1 =>
            let round := sortByKey DeferredDraw.priority (r.1.deferredDraws.drop roundStart)
            prepaintRounds depthLeft r.1.deferredDraws.length
              (round.foldl (prepaintDraw context rendered) r)

end Prepaint

/-- An element that is painted, or listeners that run, access entities. -/
def Drawing.paint (d : Drawing V E K) (accesses : List (List V × E)) : Drawing V E K :=
  accesses.foldl (fun d access => d.access access.1 [access.2]) d

/-! ### Frames -/

/-- What a frame is drawn from. -/
structure Frame (V E K : Type) where
  context : CacheContext E
  root : Element (Accesses E) V E K
  /-- The prompt, the drag or the tooltip. -/
  overlay : Element (Accesses E) V E K
  /-- The entities that are notified meanwhile. -/
  notified : List E
  /-- The entities that the listeners of the focus access. -/
  listeners : List E
  /-- The states that are carried over with a view around them that is reused. -/
  carried : V → Bool

/-- What was accessed for what a view shows: by the code in it, and for what is reused in
    it or with it. -/
def Touch.shown (rendered : V → Option (ViewElementState E K)) (id : V) : Touch V E → Finset E
  | .entity owners e => if id ∈ owners then {e} else ∅
  | .reuse owners reused =>
      if id ∈ owners ∨ id = reused then (rendered reused).elim ∅ ViewElementState.shown else ∅

def shownIn (rendered : V → Option (ViewElementState E K)) (log : List (Touch V E)) (id : V) :
    Finset E :=
  log.foldr (fun touch shown => touch.shown rendered id ∪ shown) ∅

/-- The app and a window of it, between frames. -/
structure State (W V E K : Type) where
  tracking : Tracking W E
  elementStates : V → Option (ViewElementState E K)
  /-- History: the last frame shows the view, drawn or reused. -/
  isShown : V → Bool

inductive Action (W V E K : Type) where
  /-- The window is drawn. -/
  | frame (frame : Frame V E K)
  /-- Another window is drawn. -/
  | otherFrame (other : W) (notified : List E) (entities : Finset E)
  | notify (entity : E)

namespace State

def start : State W V E K where
  tracking := .new
  elementStates := fun _ => none
  isShown := fun _ => false

def startDrawing (frame : Frame V E K) : Drawing V E K where
  accessedEntities := ∅
  refreshing := frame.context.refreshing
  elementStates := fun _ => none
  deferredDraws := []
  log := []

/-- `draw_roots`, and the listeners of the focus. -/
def drawRoots (s : State W V E K) (frame : Frame V E K) : Except DrawPanic (Drawing V E K) :=
  let root := prepaint frame.context s.elementStates [] frame.root
    ((startDrawing frame).access [] (layout frame.root))
  match prepaintRounds frame.context s.elementStates 10 0 (root.1, []) with
  | .error e => .error e
  | .ok deferred =>
      let overlay := prepaint frame.context s.elementStates [] frame.overlay
        (deferred.1.access [] (layout frame.overlay))
      -- what the overlay defers would be painted without a prepaint
      if overlay.1.deferredDraws.length ≠ deferred.1.deferredDraws.length then
        .error .notPrepainted
      else
        .ok (overlay.1.paint (root.2 ++ (sortByKey Prod.fst deferred.2).flatMap Prod.snd ++
          overlay.2 ++ frame.listeners.map ([], ·)))

/-- `Frame::finish`: the states of the frame, and those that are carried over. -/
def finish (s : State W V E K) (frame : Frame V E K) (d : Drawing V E K) (id : V) :
    Option (ViewElementState E K) :=
  match d.elementStates id with
  | some state => some { state with shown := shownIn s.elementStates d.log id }
  | none       => if frame.carried id then s.elementStates id else none

variable [DecidableEq W]

/-- `draw`. -/
def draw (s : State W V E K) (window : W) (frame : Frame V E K) :
    Except DrawPanic (State W V E K) :=
  match s.drawRoots frame with
  | .error e => .error e
  | .ok d =>
      .ok {
        tracking := s.tracking.drawn window frame.notified d.accessedEntities
        elementStates := s.finish frame d
        isShown := fun id => (d.elementStates id).isSome }

def step (window : W) (s : State W V E K) :
    Action W V E K → Option (Except DrawPanic (State W V E K))
  | .frame frame => some (s.draw window frame)
  | .otherFrame other notified entities =>
      if other ≠ window then
        some (.ok { s with tracking := s.tracking.drawn other notified entities })
      else none
  | .notify entity => some (.ok { s with tracking := s.tracking.notify entity })

/-- A window of the app. -/
def machine (V E K : Type) [DecidableEq V] [DecidableEq E] [DecidableEq K] (window : W) :
    Machine DrawPanic (State W V E K) (Action W V E K) where
  start := start
  step := step window

end State

end CachedViews

end Gpui
