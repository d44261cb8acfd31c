import Gpui.Scene.Geometry
import Gpui.Text.LineLayoutCache

/-! # Positions in a line and indices in its text

    A line of text maps the index of a character to a horizontal position and back; a
    wrapped line maps it to a point. -/

namespace Gpui

namespace LineLayout

variable {X : Type} [Field X] [LinearOrder X]

/-- The loops of `index_for_x`, over the glyphs from the last one on. -/
def indexForXFrom (x : X) : List (GlyphAt X) → Option Nat
  | [] => none
  | glyph :: rest => if glyph.x ≤ x then some glyph.index else indexForXFrom x rest

/-- The index of the character at a position. -/
def indexForX (layout : LineLayout X) (x : X) : Option Nat :=
  if layout.width ≤ x then none
  else
    match indexForXFrom x layout.glyphs.reverse with
    | some index => some index
    | none       => some 0

/-- The loops of `closest_index_for_x`. -/
def closestFrom (x : X) : Nat → X → List (GlyphAt X) → Option Nat
  | _, _, [] => none
  | prevIndex, prevX, glyph :: rest =>
      if x ≤ glyph.x then
        if glyph.x - x < x - prevX then some glyph.index else some prevIndex
      else closestFrom x glyph.index glyph.x rest

/-- The character boundary closest to a position. -/
def closestIndexForX (layout : LineLayout X) (x : X) : Nat :=
  match closestFrom x 0 0 layout.glyphs with
  | some index => index
  | none =>
      -- the position is right of the start of the last glyph
      if layout.len = 1 then
        if layout.width / (2 : Nat) < x then 1 else 0
      else layout.len

/-- The loops of `x_for_index`. -/
def xForIndexFrom (width : X) (index : Nat) : List (GlyphAt X) → X
  | [] => width
  | glyph :: rest => if index ≤ glyph.index then glyph.x else xForIndexFrom width index rest

/-- The position of the character at an index. -/
def xForIndex (layout : LineLayout X) (index : Nat) : X :=
  xForIndexFrom layout.width index layout.glyphs

/-- `self.runs[boundary.run_ix].glyphs[boundary.glyph_ix]`. -/
def glyphAt (layout : LineLayout X) (boundary : WrapBoundary) : Run (ShapedGlyph X) := do
  let run ← getIndex layout.runs boundary.runIx
  getIndex run.glyphs boundary.glyphIx

end LineLayout

namespace WrappedLineLayout

variable {X : Type} [Field X] [LinearOrder X]

def len (layout : WrappedLineLayout X) : Nat := layout.unwrappedLayout.len

/-! ## The position of an index -/

/-- The body of the loop of `position_for_index`, on the line that ends at an index: the
    point, or the start of the next line. -/
def positionInLine (layout : WrappedLineLayout X) (index : Nat) (lineHeight : X) (ix : Nat)
    (lineStartIx lineEndIx : Nat) : Except (Option (Point X)) Nat :=
  let lineY := ix * lineHeight
  if index < lineStartIx then .error none
  else if lineEndIx < index then .ok lineEndIx
  else
    let lineStartX := layout.unwrappedLayout.xForIndex lineStartIx
    let x := layout.unwrappedLayout.xForIndex index - lineStartX
    .error (some ⟨x, lineY⟩)

/-- The loop of `position_for_index`, over the boundaries and then the end of the text. -/
def positionFrom (layout : WrappedLineLayout X) (index : Nat) (lineHeight : X) :
    Nat → Nat → List WrapBoundary → Run (Option (Point X))
  | ix, lineStartIx, [] =>
      match layout.positionInLine index lineHeight ix lineStartIx layout.len with
      | .error position => .ok position
      | .ok _           => .ok none
  | ix, lineStartIx, wrapBoundary :: rest => do
      let glyph ← layout.unwrappedLayout.glyphAt wrapBoundary
      match layout.positionInLine index lineHeight ix lineStartIx glyph.index with
      | .error position => .ok position
      | .ok lineEndIx   => layout.positionFrom index lineHeight (ix + 1) lineEndIx rest

/-- The position of the character at an index. -/
def positionForIndex (layout : WrappedLineLayout X) (index : Nat) (lineHeight : X) :
    Run (Option (Point X)) :=
  layout.positionFrom index lineHeight 0 0 layout.wrapBoundaries

/-! ## The index at a position -/

/-- Where a visual line starts, if there is one. -/
def wrappedLineStart (layout : WrappedLineLayout X) (wrappedLineIx : Nat) :
    Run (Option (Nat × X)) :=
  if 0 < wrappedLineIx then
    match layout.wrapBoundaries[wrappedLineIx - 1]? with
    | none => .ok none
    | some lineStartBoundary => do
        let glyph ← layout.unwrappedLayout.glyphAt lineStartBoundary
        .ok (some (glyph.index, glyph.x))
  else .ok (some (0, 0))

/-- Where it ends: at the next boundary, or at the end of the text. -/
def wrappedLineEnd (layout : WrappedLineLayout X) (wrappedLineIx : Nat) : Run (Nat × X) :=
  match layout.wrapBoundaries[wrappedLineIx]? with
  | some nextWrapBoundary => do
      let glyph ← layout.unwrappedLayout.glyphAt nextWrapBoundary
      .ok (glyph.index, glyph.x)
  | none => .ok (layout.unwrappedLayout.len, layout.unwrappedLayout.width)

section

variable [FloorSemiring X]

/-- `_index_for_position`, with `closest` or without: `ok` in a visual line, and the nearer
    end of it as an error beside it. -/
def indexForPosition' (layout : WrappedLineLayout X) (position : Point X) (lineHeight : X)
    (closest : Bool) : Run (Except Nat Nat) := do
  let wrappedLineIx := ⌊position.y / lineHeight⌋₊
  match ← layout.wrappedLineStart wrappedLineIx with
  | none => .ok (.error 0)
  | some (wrappedLineStartIndex, wrappedLineStartX) => do
      let (wrappedLineEndIndex, wrappedLineEndX) ← layout.wrappedLineEnd wrappedLineIx
      let x := position.x + wrappedLineStartX
      .ok (
        if x < wrappedLineStartX then .error wrappedLineStartIndex
        else if wrappedLineEndX ≤ x then .error wrappedLineEndIndex
        else if closest then .ok (layout.unwrappedLayout.closestIndexForX x)
        else
          match layout.unwrappedLayout.indexForX x with
          | some index => .ok index
          | none       => .error wrappedLineEndIndex)

/-- The index at a position. -/
def indexForPosition (layout : WrappedLineLayout X) (position : Point X) (lineHeight : X) :
    Run (Except Nat Nat) :=
  layout.indexForPosition' position lineHeight false

/-- The index of the character boundary closest to a position. -/
def closestIndexForPosition (layout : WrappedLineLayout X) (position : Point X)
    (lineHeight : X) : Run (Except Nat Nat) :=
  layout.indexForPosition' position lineHeight true

end

end WrappedLineLayout

end Gpui
