import Gpui.Text.HitTest
import Gpui.Text.ShapeText

/-! # Splitting a shaped line: the model

    A line is split at a byte index into two lines.  Glyphs, decorations and the text are
    handed out, and what goes to the second line is moved to its start. -/

namespace Gpui

/-- A line of text that was shaped and decorated. -/
structure ShapedLine (X C : Type) where
  layout : LineLayout X
  text : List Char
  decorationRuns : List (DecorationRun X C)

namespace ShapedLine

open WindowTextSystem (addU32 subUsize)

variable {X C : Type} [Field X] [LinearOrder X]

/-- `partition_point`: how many glyphs at the front are before an index. -/
def splitPos (byteIndex : Nat) (glyphs : List (ShapedGlyph X)) : Nat :=
  (glyphs.takeWhile (fun glyph => glyph.index < byteIndex)).length

/-- A glyph of the second line. -/
def moveGlyph (byteIndex : Nat) (xOffset : X) (glyph : ShapedGlyph X) : Run (ShapedGlyph X) := do
  let index ← subUsize glyph.index byteIndex
  .ok { glyph with x := glyph.x - xOffset, index }

/-- The loop over the runs.  A single run may contribute glyphs to both halves. -/
def splitRuns (byteIndex : Nat) (xOffset : X) :
    List (ShapedRun X) → Run (List (ShapedRun X) × List (ShapedRun X))
  | [] => .ok ([], [])
  | run :: rest => do
      let splitPos := splitPos byteIndex run.glyphs
      let rightGlyphs ← (run.glyphs.drop splitPos).mapM (moveGlyph byteIndex xOffset)
      let (leftRuns, rightRuns) ← splitRuns byteIndex xOffset rest
      let left := if 0 < splitPos then [⟨run.fontId, run.glyphs.take splitPos⟩] else []
      let right := if splitPos < run.glyphs.length then [⟨run.fontId, rightGlyphs⟩] else []
      .ok (left ++ leftRuns, right ++ rightRuns)

/-- The loop over the decorations.  A run straddling the boundary is split into two. -/
def splitDecorations (splitPoint : Nat) :
    Nat → List (DecorationRun X C) →
      Run (List (DecorationRun X C) × List (DecorationRun X C))
  | _, [] => .ok ([], [])
  | decorationOffset, decoration :: rest => do
      let runEnd ← addU32 decorationOffset decoration.len
      let (left, right) ← splitDecorations splitPoint runEnd rest
      if runEnd ≤ splitPoint then .ok (decoration :: left, right)
      else if splitPoint ≤ decorationOffset then .ok (left, decoration :: right)
      else
        .ok ({ decoration with len := splitPoint - decorationOffset } :: left,
          { decoration with len := runEnd - splitPoint } :: right)

def leftText (text : List Char) (byteIndex : Nat) : Run (List Char) :=
  if byteIndex = utf8Len text then .ok text else sliceTo text byteIndex

def rightText (text : List Char) (byteIndex : Nat) : Run (List Char) :=
  if byteIndex = 0 then .ok text else sliceFrom text byteIndex

def splitAt (line : ShapedLine X C) (byteIndex : Nat) :
    Run (ShapedLine X C × ShapedLine X C) := do
  let xOffset := line.layout.xForIndex byteIndex
  let (leftRuns, rightRuns) ← splitRuns byteIndex xOffset line.layout.runs
  -- the index as a 32-bit number
  let splitPoint := byteIndex % 2 ^ 32
  let (leftDecorations, rightDecorations) ← splitDecorations splitPoint 0 line.decorationRuns
  let leftText ← leftText line.text byteIndex
  let rightText ← rightText line.text byteIndex
  let leftWidth := xOffset
  let rightWidth := line.layout.width - leftWidth
  let rightLen ← subUsize line.layout.len byteIndex
  .ok (
    { layout := { line.layout with width := leftWidth, runs := leftRuns, len := byteIndex }
      text := leftText
      decorationRuns := leftDecorations },
    { layout := { line.layout with width := rightWidth, runs := rightRuns, len := rightLen }
      text := rightText
      decorationRuns := rightDecorations })

end ShapedLine

end Gpui
