import Gpui.Text.HitTest
import Gpui.Text.ShapeText
import Gpui.Text.Truncate

/-! # The layout of a text element: the model

    A text element is measured while the tree is laid out, maybe many times with different
    widths.  What the last measurement shaped is kept, and maps indices to points and back
    when the element has its bounds.  Only the widths that it is measured with matter, so
    that the heights are left out. -/

namespace Gpui

inductive AvailableSpace (X : Type) where
  | definite (x : X)
  | minContent
  | maxContent
deriving DecidableEq

def AvailableSpace.definite? {X : Type} : AvailableSpace X → Option X
  | .definite x => some x
  | _           => none

inductive WhiteSpace where
  | normal
  | nowrap
deriving DecidableEq

/-- How a text that overflows is truncated, with what stands for the rest. -/
inductive TextOverflow where
  | truncate (affix : List Char)
  | truncateStart (affix : List Char)
  | truncateMiddle (affix : List Char)

/-- The part of a text style that the layout depends on. -/
structure TextStyle (X : Type) where
  fontSize : X
  lineHeight : X
  whiteSpace : WhiteSpace
  textOverflow : Option TextOverflow
  lineClamp : Option Nat

namespace WrappedLineLayout

variable {X : Type} [Field X] [LinearOrder X]

def width (layout : WrappedLineLayout X) : X :=
  match layout.wrapWidth with
  | some wrapWidth => min wrapWidth layout.unwrappedLayout.width
  | none           => layout.unwrappedLayout.width

def size (layout : WrappedLineLayout X) (lineHeight : X) : Size X where
  width := layout.width
  height := lineHeight * (layout.wrapBoundaries.length + 1 : Nat)

end WrappedLineLayout

open WindowTextSystem (WrappedLine shapeText)

structure TextLayoutInner (X C : Type) where
  /-- Of the text, in bytes. -/
  len : Nat
  lines : List (WrappedLine X C)
  lineHeight : X
  wrapWidth : Option X
  truncateWidth : Option X
  size : Option (Size X)
  bounds : Option (Bounds X)

/-- A text, the runs that cover it and its style.  The font of the style has a width for
    each character; `F` are the fonts of the runs. -/
structure StyledText (X C F : Type) where
  text : List Char
  runs : List (WindowTextSystem.TextRun X C F)
  style : TextStyle X
  resolveFont : F → Nat
  widthForChar : Char → X

/-- What a text element remembers of its layout. -/
abbrev TextLayout (X C : Type) := Option (TextLayoutInner X C)

namespace TextLayout

open LineWrapper (TruncateFrom truncateLine truncateWrappedLine)

variable {X C F : Type}

/-! ## Measuring -/

/-- The width at which lines are wrapped. -/
def wrapWidth (style : TextStyle X) (knownWidth : Option X) (availableWidth : AvailableSpace X) :
    Option X :=
  if style.whiteSpace = .normal then knownWidth.or availableWidth.definite? else none

/-- The width that the text has to fit in, the affix and where it is truncated. -/
def truncation [Field X] (style : TextStyle X) (knownWidth : Option X)
    (availableWidth : AvailableSpace X) : Option X × List Char × TruncateFrom :=
  match style.textOverflow with
  | some textOverflow =>
      let width := knownWidth.or
        (match availableWidth with
          | .definite x =>
              match style.lineClamp with
              | some maxLines => some (x * maxLines)
              | none          => some x
          | _ => none)
      match textOverflow with
      | .truncate affix       => (width, affix, .stop)
      | .truncateStart affix  => (width, affix, .start)
      | .truncateMiddle affix => (width, affix, .middle)
  | none => (none, [], .stop)

/-- The size of the layout that is kept, if it is used again. -/
def cachedSize [DecidableEq X] (layout : TextLayout X C) (wrapWidth truncateWidth : Option X) :
    Option (Size X) :=
  match layout with
  | some textLayout =>
      if (wrapWidth = none ∨ wrapWidth = textLayout.wrapWidth) ∧ truncateWidth = none ∧
          textLayout.truncateWidth = none then
        textLayout.size
      else none
  | none => none

/-- The runs as the line wrapper takes them. -/
def toWrapper (run : WindowTextSystem.TextRun X C F) :
    LineWrapper.TextRun (Decoration X C × F) :=
  ⟨run.len, (run.toDecoration, run.font)⟩

def ofWrapper (run : LineWrapper.TextRun (Decoration X C × F)) :
    WindowTextSystem.TextRun X C F :=
  { run.style.1 with len := run.len, font := run.style.2 }

variable [Field X] [LinearOrder X] [FloorRing X] [DecidableEq C]

/-- The size of some lines.  It is rounded after each of them. -/
def linesSize (lines : List (WrappedLine X C)) (lineHeight : X) : Size X :=
  lines.foldl (fun size line =>
    let lineSize := line.layout.size lineHeight
    { width := ((⌈max size.width lineSize.width⌉ : ℤ) : X)
      height := size.height + lineSize.height }) ⟨0, 0⟩

/-- The text that is shaped and its runs: cut, if there is a width to fit in. -/
def truncateText (element : StyledText X C F) (cache : LineLayoutCache X)
    (wrapWidth : Option X) (truncation : Option X × List Char × TruncateFrom) :
    Run (LineLayoutCache X × List Char × List (WindowTextSystem.TextRun X C F)) :=
  match truncation with
  | (some truncateWidth, affix, truncateFrom) =>
      match element.style.lineClamp, wrapWidth with
      | some maxLines, some wrapWidth => do
          let (text, runs) ← truncateWrappedLine element.widthForChar element.text wrapWidth
            maxLines affix (element.runs.map toWrapper) truncateFrom
          .ok (cache, text, runs.map ofWrapper)
      | _, _ => do
          let (cache, unclipped) ← shapeText cache element.resolveFont element.text
            element.style.fontSize element.runs none none
          -- the shaped text can be narrower than its characters
          if unclipped.all (fun line =>
              (line.layout.size element.style.lineHeight).width ≤ truncateWidth) then
            .ok (cache, element.text, element.runs)
          else do
            let (text, runs) ← truncateLine element.widthForChar element.text truncateWidth
              affix (element.runs.map toWrapper) truncateFrom
            .ok (cache, text, runs.map ofWrapper)
  | (none, _) => .ok (cache, element.text, element.runs)

/-- What a measurement leaves behind, and the size that it returns. -/
structure Measured (X C : Type) [Field X] [LinearOrder X] where
  cache : LineLayoutCache X
  layout : TextLayout X C
  size : Size X

/-- The closure that measures the element.  Shaping a text does not fail. -/
def measure (element : StyledText X C F) (cache : LineLayoutCache X) (layout : TextLayout X C)
    (knownWidth : Option X) (availableWidth : AvailableSpace X) : Run (Measured X C) :=
  let wrapWidth := wrapWidth element.style knownWidth availableWidth
  let truncation := truncation element.style knownWidth availableWidth
  match cachedSize layout wrapWidth truncation.1 with
  | some size => .ok ⟨cache, layout, size⟩
  | none => do
      let (cache, text, runs) ← truncateText element cache wrapWidth truncation
      let (cache, lines) ← shapeText cache element.resolveFont text element.style.fontSize runs
        wrapWidth element.style.lineClamp
      let size := linesSize lines element.style.lineHeight
      let textLayout : TextLayoutInner X C := {
        len := utf8Len text
        lines
        lineHeight := element.style.lineHeight
        wrapWidth
        truncateWidth := truncation.1
        size := some size
        bounds := none }
      .ok ⟨cache, some textLayout, size⟩

/-! ## Points and indices -/

section

variable [FloorSemiring X]

/-- The loop of `index_for_position`, over the lines from one that starts at a point and an
    index. -/
def indexForPositionFrom (lineHeight : X) (position : Point X) :
    Point X → Nat → List (WrappedLine X C) → Run (Except Nat Nat)
  | _, lineStartIx, [] => .ok (.error (lineStartIx - 1))
  | lineOrigin, lineStartIx, line :: rest =>
      let lineBottom := lineOrigin.y + (line.layout.size lineHeight).height
      if lineBottom < position.y then
        indexForPositionFrom lineHeight position ⟨lineOrigin.x, lineBottom⟩
          (lineStartIx + (line.layout.len + 1)) rest
      else do
        let positionWithinLine : Point X :=
          ⟨position.x - lineOrigin.x, position.y - lineOrigin.y⟩
        match ← line.layout.indexForPosition positionWithinLine lineHeight with
        | .ok indexWithinLine    => .ok (.ok (lineStartIx + indexWithinLine))
        | .error indexWithinLine => .ok (.error (lineStartIx + indexWithinLine))

/-- The byte index at a position. -/
def indexForPosition (layout : TextLayout X C) (position : Point X) : Run (Except Nat Nat) :=
  match layout with
  -- not measured
  | none => .error .unwrapNone
  | some elementState =>
      match elementState.bounds with
      -- not prepainted
      | none => .error .unwrapNone
      | some bounds =>
          if position.y < bounds.origin.y then .ok (.error 0)
          else
            indexForPositionFrom elementState.lineHeight position bounds.origin 0
              elementState.lines

end

/-- The loop of `position_for_index`. -/
def positionForIndexFrom (lineHeight : X) (index : Nat) :
    Point X → Nat → List (WrappedLine X C) → Run (Option (Point X))
  | _, _, [] => .ok none
  | lineOrigin, lineStartIx, line :: rest =>
      let lineEndIx := lineStartIx + line.layout.len
      if index < lineStartIx then .ok none
      else if lineEndIx < index then
        positionForIndexFrom lineHeight index
          ⟨lineOrigin.x, lineOrigin.y + (line.layout.size lineHeight).height⟩ (lineEndIx + 1) rest
      else do
        let position ← line.layout.positionForIndex (index - lineStartIx) lineHeight
        .ok (position.map (fun position =>
          ⟨lineOrigin.x + position.x, lineOrigin.y + position.y⟩))

/-- The position of a byte index. -/
def positionForIndex (layout : TextLayout X C) (index : Nat) : Run (Option (Point X)) :=
  match layout with
  | none => .error .unwrapNone
  | some elementState =>
      match elementState.bounds with
      | none => .error .unwrapNone
      | some bounds =>
          positionForIndexFrom elementState.lineHeight index bounds.origin 0 elementState.lines

/-- The element gets its bounds. -/
def prepaint (layout : TextLayout X C) (bounds : Bounds X) : Run (TextLayout X C) :=
  match layout with
  | none => .error .unwrapNone
  | some elementState => .ok (some { elementState with bounds := some bounds })

end TextLayout

end Gpui
