import Gpui.Window.PaintQuad

/-! # Scrolling a div: the model

    An element measures its children before it is painted, limits its scroll offset to what
    they exceed it by, and shifts them by the offset.  A scroll handle keeps the offset of the
    element that it belongs to, and what a frame measured.  A child that the handle was asked
    to scroll to is looked for when the next frame has measured the children.

    Coordinates are of the window and in an ordered field. -/

namespace Gpui

/-! ## Lengths -/

inductive AbsoluteLength (X : Type) where
  | pixels (value : X)
  | rems (value : X)

inductive DefiniteLength (X : Type) where
  | absolute (length : AbsoluteLength X)
  | fraction (value : X)

section Lengths

variable {X : Type} [Field X]

def AbsoluteLength.toPixels (remSize : X) : AbsoluteLength X → X
  | .pixels value => value
  | .rems value   => value * remSize

/-- `baseSize` is in pixels. -/
def DefiniteLength.toPixels (baseSize remSize : X) : DefiniteLength X → X
  | .absolute length => length.toPixels remSize
  | .fraction value  => baseSize * value

def Edges.toPixels (self : Edges (DefiniteLength X)) (parentSize : Size X) (remSize : X) :
    Edges X where
  top    := self.top.toPixels parentSize.height remSize
  right  := self.right.toPixels parentSize.width remSize
  bottom := self.bottom.toPixels parentSize.height remSize
  left   := self.left.toPixels parentSize.width remSize

end Lengths

namespace Div

/-! ## Elements and handles -/

inductive Overflow where
  | visible
  | clip
  | hidden
  | scroll
deriving DecidableEq, Repr

/-- What scrolling depends on. -/
structure Style (X : Type) where
  overflow : Point Overflow
  padding : Edges (DefiniteLength X)

/-- An element in a frame, with the bounds that were laid out, and the units of the window. -/
structure Frame (X : Type) where
  style : Style X
  bounds : Bounds X
  children : List (Bounds X)
  remSize : X
  scaleFactor : X

inductive ScrollStrategy where
  | firstVisible
  | top
deriving DecidableEq, Repr

structure ScrollActiveItem where
  index : Nat
  strategy : ScrollStrategy
deriving DecidableEq, Repr

structure ScrollHandleState (X : Type) where
  offset : Point X
  bounds : Bounds X
  maxOffset : Point X
  childBounds : List (Bounds X)
  scrollToBottom : Bool
  overflow : Point Overflow
  activeItem : Option ScrollActiveItem

/-- Where an element keeps its scroll offset. -/
inductive ScrollState (X : Type) where
  /-- It does not scroll. -/
  | unscrolled
  /-- The state of the element has it. -/
  | element (scrollOffset : Point X)
  /-- A handle that the element was given has it. -/
  | tracked (scrollHandle : ScrollHandleState X)

variable {X : Type} [Field X] [LinearOrder X]

/-! ## The size of the content -/

/-- The extent of the children, with the accumulators `child_min` and `child_max`. -/
def measure (childMin childMax : Point X) : List (Bounds X) → Size X
  | [] => ⟨childMax.x - childMin.x, childMax.y - childMin.y⟩
  | childBounds :: rest =>
      measure (childMin.min childBounds.origin) (childMax.max childBounds.bottomRight) rest

namespace Frame

/-- `pixelsMax` is `Pixels::MAX`. -/
def contentSize (frame : Frame X) (pixelsMax : X) : Size X :=
  if frame.children.isEmpty then frame.bounds.size
  else measure ⟨pixelsMax, pixelsMax⟩ ⟨0, 0⟩ frame.children

end Frame

/-! ## The range of the offset -/

section Range

variable [FloorRing X]

/-- `f32::round`, which takes halves away from zero. -/
def round (value : X) : X :=
  if 0 ≤ value then ⌊value + 1 / (2 : Nat)⌋ else ⌈value - 1 / (2 : Nat)⌉

def roundToTwoDecimals (pixels : X) : X :=
  round (pixels * (100 : Nat)) / (100 : Nat)

/-- To the nearest device pixel. -/
def pixelSnap (scaleFactor value : X) : X :=
  roundToDevicePixel value scaleFactor / scaleFactor

namespace Frame

/-- The padding is on the grid of device pixels, as in the layout. -/
def paddingSize (frame : Frame X) : Size X :=
  let padding := frame.style.padding.toPixels frame.bounds.size frame.remSize
  { width := pixelSnap frame.scaleFactor padding.left + pixelSnap frame.scaleFactor padding.right
    height :=
      pixelSnap frame.scaleFactor padding.top + pixelSnap frame.scaleFactor padding.bottom }

/-- How far the element scrolls. -/
def scrollMax (frame : Frame X) (pixelsMax : X) : Point X :=
  let contentSize := frame.contentSize pixelsMax
  let scrollMax : Point X :=
    { x := roundToTwoDecimals
        (contentSize.width + frame.paddingSize.width - frame.bounds.size.width)
      y := roundToTwoDecimals
        (contentSize.height + frame.paddingSize.height - frame.bounds.size.height) }
  scrollMax.max ⟨0, 0⟩

/-- The offset after a frame, in the range of the element. -/
def clampOffset (frame : Frame X) (pixelsMax : X) (scrollToBottom : Bool)
    (scrollOffset : Point X) : Point X where
  x := max (-(frame.scrollMax pixelsMax).x) (min scrollOffset.x 0)
  y :=
    if scrollToBottom then -(frame.scrollMax pixelsMax).y
    else max (-(frame.scrollMax pixelsMax).y) (min scrollOffset.y 0)

end Frame

namespace ScrollHandleState

/-- The handle records the frame when the offset is limited. -/
def clampScrollPosition (self : ScrollHandleState X) (frame : Frame X) (pixelsMax : X) :
    ScrollHandleState X :=
  { self with
    overflow := frame.style.overflow
    scrollToBottom := false
    offset := frame.clampOffset pixelsMax self.scrollToBottom self.offset
    maxOffset := frame.scrollMax pixelsMax
    bounds := frame.bounds }

end ScrollHandleState

namespace ScrollState

def clampScrollPosition (frame : Frame X) (pixelsMax : X) : ScrollState X → ScrollState X
  | .unscrolled => .unscrolled
  | .element scrollOffset => .element (frame.clampOffset pixelsMax false scrollOffset)
  | .tracked scrollHandle => .tracked (scrollHandle.clampScrollPosition frame pixelsMax)

/-- What the children are shifted by. -/
def scrollOffset : ScrollState X → Point X
  | .unscrolled => ⟨0, 0⟩
  | .element scrollOffset => scrollOffset
  | .tracked scrollHandle => scrollHandle.offset

def maxOffset : ScrollState X → Option (Point X)
  | .tracked scrollHandle => some scrollHandle.maxOffset
  | _ => none

end ScrollState

end Range

/-! ## Scrolling to a child -/

namespace ScrollHandleState

def new : ScrollHandleState X where
  offset := ⟨0, 0⟩
  bounds := ⟨⟨0, 0⟩, ⟨0, 0⟩⟩
  maxOffset := ⟨0, 0⟩
  childBounds := []
  scrollToBottom := false
  overflow := ⟨.visible, .visible⟩
  activeItem := none

def setScrollToBottom (self : ScrollHandleState X) : ScrollHandleState X :=
  { self with scrollToBottom := true }

def setOffset (self : ScrollHandleState X) (position : Point X) : ScrollHandleState X :=
  { self with offset := position }

def scrollToItem (self : ScrollHandleState X) (ix : Nat) : ScrollHandleState X :=
  { self with activeItem := some ⟨ix, .firstVisible⟩ }

def scrollToTopOfItem (self : ScrollHandleState X) (ix : Nat) : ScrollHandleState X :=
  { self with activeItem := some ⟨ix, .top⟩ }

end ScrollHandleState

/-- One coordinate of the offset that shows a child; a child that is too large is shown from
    its start. -/
def alignOffset (start length childStart childLength scrollOffset : X) : X :=
  if length < childLength then start - childStart
  else if childStart + scrollOffset < start then start - childStart
  else if start + length < childStart + childLength + scrollOffset then
    start + length - (childStart + childLength)
  else scrollOffset

namespace ScrollHandleState

/-- The offset that shows a child in the bounds that the handle recorded. -/
def alignItem (self : ScrollHandleState X) (strategy : ScrollStrategy) (bounds : Bounds X) :
    Point X where
  x :=
    if self.overflow.x = .scroll then
      alignOffset self.bounds.origin.x self.bounds.size.width bounds.origin.x bounds.size.width
        self.offset.x
    else self.offset.x
  y :=
    match strategy with
    | .firstVisible =>
        if self.overflow.y = .scroll then
          alignOffset self.bounds.origin.y self.bounds.size.height bounds.origin.y
            bounds.size.height self.offset.y
        else self.offset.y
    | .top => self.bounds.origin.y - bounds.origin.y

def scrollToActiveItem (self : ScrollHandleState X) : ScrollHandleState X :=
  match self.activeItem with
  | none => self
  | some activeItem =>
      match self.childBounds[activeItem.index]? with
      | some bounds =>
          { self with offset := self.alignItem activeItem.strategy bounds, activeItem := none }
      | none => self

/-- The bounds of the children are those of the last frame that had children. -/
def updateChildren (self : ScrollHandleState X) (frame : Frame X) : ScrollHandleState X :=
  if frame.children.isEmpty then self else { self with childBounds := frame.children }

/-- What a frame does with the handle of an element. -/
def prepaint [FloorRing X] (self : ScrollHandleState X) (frame : Frame X) (pixelsMax : X) :
    ScrollHandleState X :=
  (self.updateChildren frame).scrollToActiveItem.clampScrollPosition frame pixelsMax

end ScrollHandleState

end Div

end Gpui
