import Gpui.Elements.ListState

/-! # Anchored elements: the model

    An anchored element places its children at a point of the window or of its parent.  If they
    would overflow the window, they are placed on the other side of the point, or are moved
    back.

    Coordinates are in an ordered field.  The offset of the children is that before the final
    rounding. -/

namespace Gpui

inductive Axis where
  | vertical
  | horizontal
deriving DecidableEq, Repr

/-- A point of a rectangle. -/
inductive Anchor where
  | topLeft
  | topRight
  | bottomLeft
  | bottomRight
  | topCenter
  | bottomCenter
  | leftCenter
  | rightCenter
deriving DecidableEq, Repr

def Anchor.otherSideAlong (self : Anchor) : Axis → Anchor
  | .vertical =>
      match self with
      | .topLeft      => .bottomLeft
      | .topRight     => .bottomRight
      | .bottomLeft   => .topLeft
      | .bottomRight  => .topRight
      | .topCenter    => .bottomCenter
      | .bottomCenter => .topCenter
      | .leftCenter   => .leftCenter
      | .rightCenter  => .rightCenter
  | .horizontal =>
      match self with
      | .topLeft      => .topRight
      | .topRight     => .topLeft
      | .bottomLeft   => .bottomRight
      | .bottomRight  => .bottomLeft
      | .topCenter    => .topCenter
      | .bottomCenter => .bottomCenter
      | .leftCenter   => .rightCenter
      | .rightCenter  => .leftCenter

inductive AnchoredFitMode (X : Type) where
  | snapToWindow
  | snapToWindowWithMargin (edges : Edges X)
  | switchAnchor

inductive AnchoredPositionMode where
  | window
  /-- Relative to the parent. -/
  | local
deriving DecidableEq, Repr

namespace AnchoredElement

/-- `struct Anchored`, without the children. -/
structure Anchored (X : Type) where
  anchor : Anchor
  fitMode : AnchoredFitMode X
  anchorPosition : Option (Point X)
  positionMode : AnchoredPositionMode
  offset : Option (Point X)

structure Window (X : Type) where
  viewportSize : Size X
  clientInset : Option X

variable {X : Type} [Field X]

def fromAnchorAndSize (corner : Anchor) (origin : Point X) (size : Size X) : Bounds X where
  origin :=
    match corner with
    | .topLeft      => origin
    | .topRight     => ⟨origin.x - size.width, origin.y⟩
    | .bottomLeft   => ⟨origin.x, origin.y - size.height⟩
    | .bottomRight  => ⟨origin.x - size.width, origin.y - size.height⟩
    | .topCenter    => ⟨origin.x - size.width / (2 : Nat), origin.y⟩
    | .bottomCenter => ⟨origin.x - size.width / (2 : Nat), origin.y - size.height⟩
    | .leftCenter   => ⟨origin.x, origin.y - size.height / (2 : Nat)⟩
    | .rightCenter  => ⟨origin.x - size.width, origin.y - size.height / (2 : Nat)⟩
  size := size

namespace Anchored

/-- The origin that `get_position_and_bounds` returns. -/
def position (self : Anchored X) (bounds : Bounds X) : Point X :=
  match self.positionMode with
  | .window => self.anchorPosition.getD bounds.origin
  | .local  => self.anchorPosition.getD ⟨0, 0⟩

/-- The point of the window that the rectangle in `get_position_and_bounds` is about. -/
def anchorPoint (self : Anchored X) (bounds : Bounds X) : Point X :=
  let offset := self.offset.getD ⟨0, 0⟩
  match self.positionMode with
  | .window =>
      let anchorPosition := self.anchorPosition.getD bounds.origin
      ⟨anchorPosition.x + offset.x, anchorPosition.y + offset.y⟩
  | .local =>
      let anchorPosition := self.anchorPosition.getD ⟨0, 0⟩
      ⟨bounds.origin.x + anchorPosition.x + offset.x,
        bounds.origin.y + anchorPosition.y + offset.y⟩

/-- The rectangle that `get_position_and_bounds` returns. -/
def requested (self : Anchored X) (bounds : Bounds X) (size : Size X) : Bounds X :=
  fromAnchorAndSize self.anchor (self.anchorPoint bounds) size

/-- The margins. -/
def edges (self : Anchored X) (window : Window X) : Edges X :=
  let clientInset := window.clientInset.getD 0
  let edges :=
    match self.fitMode with
    | .snapToWindowWithMargin edges => edges
    | _ => ⟨0, 0, 0, 0⟩
  { top    := edges.top + clientInset
    right  := edges.right + clientInset
    bottom := edges.bottom + clientInset
    left   := edges.left + clientInset }

end Anchored

variable [LinearOrder X]

def overflowsHorizontally (limits : Size X) (desired : Bounds X) : Bool :=
  desired.origin.x < 0 || limits.width < desired.bottomRight.x

def overflowsVertically (limits : Size X) (desired : Bounds X) : Bool :=
  desired.origin.y < 0 || limits.height < desired.bottomRight.y

/-- The variables of the switch. -/
structure Switch (X : Type) where
  anchor : Anchor
  desired : Bounds X

/-- The anchor is switched if the children are in the window then. -/
def switchHorizontally (limits : Size X) (origin : Point X) (size : Size X) (s : Switch X) :
    Switch X :=
  if overflowsHorizontally limits s.desired then
    let switched := fromAnchorAndSize (s.anchor.otherSideAlong .horizontal) origin size
    if overflowsHorizontally limits switched then s
    else ⟨s.anchor.otherSideAlong .horizontal, switched⟩
  else s

def switchVertically (limits : Size X) (origin : Point X) (size : Size X) (s : Switch X) :
    Bounds X :=
  if overflowsVertically limits s.desired then
    let switched := fromAnchorAndSize (s.anchor.otherSideAlong .vertical) origin size
    if overflowsVertically limits switched then s.desired else switched
  else s.desired

/-- The start of an interval that is moved into the window, the end first. -/
def snap (limit low high length start : X) : X :=
  let start := if limit < start + length then start - (start + length - limit + high) else start
  if start < 0 then 0 + low else start

namespace Anchored

/-- The rectangle after the anchor was switched. -/
def switched (self : Anchored X) (window : Window X) (bounds : Bounds X) (size : Size X) :
    Bounds X :=
  match self.fitMode with
  | .switchAnchor =>
      switchVertically window.viewportSize (self.position bounds) size
        (switchHorizontally window.viewportSize (self.position bounds) size
          ⟨self.anchor, self.requested bounds size⟩)
  | _ => self.requested bounds size

/-- The rectangle after it was snapped to the window. -/
def desired (self : Anchored X) (window : Window X) (bounds : Bounds X) (size : Size X) :
    Bounds X where
  origin :=
    { x := snap window.viewportSize.width (self.edges window).left (self.edges window).right
        size.width (self.switched window bounds size).origin.x
      y := snap window.viewportSize.height (self.edges window).top (self.edges window).bottom
        size.height (self.switched window bounds size).origin.y }
  size := size

/-- What the children are moved by, if there are any. -/
def prepaint (self : Anchored X) (window : Window X) (bounds : Bounds X)
    (children : List (Bounds X)) : Option (Point X) :=
  if children.isEmpty then none
  else
    let desired := self.desired window bounds (Bounds.unionAll children).size
    some ⟨desired.origin.x - bounds.origin.x, desired.origin.y - bounds.origin.y⟩

end Anchored

end AnchoredElement

end Gpui
