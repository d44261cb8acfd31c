import Gpui.Elements.TextLayout
import Gpui.Lib.Forest
import Gpui.Window.PaintQuad

/-! # The layout engine: the model

    Taffy computes where each node of a tree lies in its parent, in device pixels that are not
    rounded.  The bounds of a node in the window are found by going up to the root; they are
    kept, as is the origin of every node on the way, until the root is computed again.

    What taffy answers is a parameter of the step that asks it. -/

namespace Gpui

namespace TaffyLayout

abbrev LayoutId := Nat

inductive Failure where
  /-- "parent absolute outer origin should be cached" -/
  | parentNotCached
deriving DecidableEq, Repr

structure Layout (X : Type) where
  location : Point X
  size : Size X
deriving DecidableEq, Repr

structure TaffyLayoutEngine (X : Type) where
  /-- The layouts that taffy holds. -/
  layouts : LayoutId → Layout X
  absoluteLayoutBounds : LayoutId → Option (Bounds X)
  /-- Unrounded absolute border-box top-left per-node coordinate in device pixels. -/
  absoluteOuterOrigins : LayoutId → Option (Point X)
  computedLayouts : List LayoutId

section Points

variable {X : Type} [Field X] [LinearOrder X] [FloorRing X]

omit [LinearOrder X] [FloorRing X] in
def addPoint (p q : Point X) : Point X := ⟨p.x + q.x, p.y + q.y⟩

def roundPoint (p : Point X) : Point X := ⟨roundHalfTowardZero p.x, roundHalfTowardZero p.y⟩

omit [LinearOrder X] [FloorRing X] in
def divideBounds (bounds : Bounds X) (scaleFactor : X) : Bounds X where
  origin := ⟨bounds.origin.x / scaleFactor, bounds.origin.y / scaleFactor⟩
  size := ⟨bounds.size.width / scaleFactor, bounds.size.height / scaleFactor⟩

omit [LinearOrder X] [FloorRing X] in
def scaleSpace (scaleFactor : X) : AvailableSpace X → AvailableSpace X
  | .definite pixels => .definite (pixels * scaleFactor)
  | .minContent      => .minContent
  | .maxContent      => .maxContent

end Points

namespace TaffyLayoutEngine

variable {X : Type}

/-! ### Section 1: Computing a layout -/

def new (layouts : LayoutId → Layout X) : TaffyLayoutEngine X where
  layouts := layouts
  absoluteLayoutBounds := fun _ => none
  absoluteOuterOrigins := fun _ => none
  computedLayouts := []

/-- Removes a node from both caches. -/
def forget (s : TaffyLayoutEngine X) (id : LayoutId) : TaffyLayoutEngine X :=
  { s with
    absoluteLayoutBounds := Function.update s.absoluteLayoutBounds id none
    absoluteOuterOrigins := Function.update s.absoluteOuterOrigins id none }

/-- The layouts that taffy finds for some available space. -/
abbrev Taffy (X : Type) := Size (AvailableSpace X) → LayoutId → Layout X

variable [Field X] (tree : Forest LayoutId) (scaleFactor : X)

def computeLayout (s : TaffyLayoutEngine X) (id : LayoutId)
    (availableSpace : Size (AvailableSpace X)) (taffy : Taffy X) : TaffyLayoutEngine X :=
  let s :=
    -- nodes are forgotten only when a root is computed another time
    if id ∈ s.computedLayouts then tree.walk forget s [id]
    else { s with computedLayouts := id :: s.computedLayouts }
  let availableSpace : Size (AvailableSpace X) :=
    ⟨scaleSpace scaleFactor availableSpace.width, scaleSpace scaleFactor availableSpace.height⟩
  { s with
    layouts := fun node =>
      if id ∈ tree.ancestors node then taffy availableSpace node else s.layouts node }

/-! ### Section 2: Bounds -/

variable [LinearOrder X] [FloorRing X]

/-- The bounds of a node with this origin, which is remembered. -/
def remember (s : TaffyLayoutEngine X) (id : LayoutId) (absoluteOuterOrigin : Point X) :
    Bounds X × TaffyLayoutEngine X :=
  let layoutSize := (s.layouts id).size
  let absoluteFar := addPoint absoluteOuterOrigin ⟨layoutSize.width, layoutSize.height⟩
  let snappedBounds := Bounds.fromCorners (roundPoint absoluteOuterOrigin) (roundPoint absoluteFar)
  let bounds := divideBounds snappedBounds scaleFactor
  (bounds, { s with
    absoluteOuterOrigins := Function.update s.absoluteOuterOrigins id (some absoluteOuterOrigin)
    absoluteLayoutBounds := Function.update s.absoluteLayoutBounds id (some bounds) })

def layoutBounds (s : TaffyLayoutEngine X) (id : LayoutId) :
    Except Failure (Bounds X × TaffyLayoutEngine X) :=
  match s.absoluteLayoutBounds id with
  | some layout => .ok (layout, s)
  | none =>
      match _h : tree.parent id with
      | none => .ok (remember scaleFactor s id (s.layouts id).location)
      | some parentId => do
          let asked ← layoutBounds s parentId
          match asked.2.absoluteOuterOrigins parentId with
          | none => .error .parentNotCached
          | some parentOrigin =>
              .ok (remember scaleFactor asked.2 id
                (addPoint parentOrigin (s.layouts id).location))
termination_by tree.depth id
decreasing_by exact tree.depth_lt parentId id _h

end TaffyLayoutEngine

/-! ### Section 3: Runs -/

inductive Op (X : Type) where
  | computeLayout (id : LayoutId) (availableSpace : Size (AvailableSpace X))
      (taffy : TaffyLayoutEngine.Taffy X)
  | layoutBounds (id : LayoutId)

section Run

variable {X : Type} [Field X] [LinearOrder X] [FloorRing X]
variable (tree : Forest LayoutId) (scaleFactor : X)

def step (s : TaffyLayoutEngine X) : Op X → Except Failure (TaffyLayoutEngine X)
  | .computeLayout id availableSpace taffy =>
      .ok (s.computeLayout tree scaleFactor id availableSpace taffy)
  | .layoutBounds id => do
      let asked ← s.layoutBounds tree scaleFactor id
      .ok asked.2

def run (initial : LayoutId → Layout X) (ops : List (Op X)) :
    Except Failure (TaffyLayoutEngine X) :=
  ops.foldlM (step tree scaleFactor) (.new initial)

end Run

end TaffyLayout

end Gpui
