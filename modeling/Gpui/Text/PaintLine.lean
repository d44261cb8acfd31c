import Gpui.Text.ShapeText
import Gpui.Text.HitTest

/-! # Painting a line of text

    A loop over the glyphs of a line paints them from visual line to visual line, and draws
    underlines and strikethroughs, or backgrounds, with them.  Every kind of decoration is
    drawn the same way: a stroke is open while the decoration lasts, and is painted at a
    wrap, where the style changes, and at the end of the text. -/

namespace Gpui

inductive TextAlign where
  | left
  | center
  | right
deriving DecidableEq

/-- What a line is painted with: the parameters of `paint_line` and `paint_line_background`. -/
structure LinePaint (X C : Type) where
  origin : Point X
  layout : LineLayout X
  lineHeight : X
  align : TextAlign
  alignWidth : Option X
  decorationRuns : List (DecorationRun X C)
  wrapBoundaries : List WrapBoundary

/-- A stroke of a decoration, as wide as it was painted. -/
structure Stroke (X S : Type) where
  origin : Point X
  width : X
  style : S
deriving DecidableEq

/-- A kind of decoration, with styles `S`. -/
structure DecorationKind (X C S : Type) where
  /-- What a run is decorated with. -/
  style : Decoration X C → Option S
  /-- An open stroke goes on in a run. -/
  continues : Decoration X C → S → Bool
  /-- How far the strokes lie below the top of their visual line. -/
  offsetY : X
  /-- The width of a stroke whose style ends is taken before its origin is moved. -/
  keepsWidth : Bool
  style_of_continues : ∀ run run' s, style run' = some s → continues run s = true →
    style run = some s

/-- A glyph with its place and the font of its run. -/
structure RunGlyph (X : Type) where
  boundary : WrapBoundary
  fontId : Nat
  glyph : ShapedGlyph X

/-- The glyphs that the nested loops visit. -/
def LineLayout.runGlyphs {X : Type} (layout : LineLayout X) : List (RunGlyph X) :=
  layout.runs.zipIdx.flatMap (fun (run, runIx) =>
    run.glyphs.zipIdx.map (fun (glyph, glyphIx) => ⟨⟨runIx, glyphIx⟩, run.fontId, glyph⟩))

/-! ## The loop -/

/-- The variables of the loop that say where it is. -/
structure GlyphCursor (X C : Type) where
  decorationRuns : List (DecorationRun X C)
  wraps : List WrapBoundary
  runEnd : Nat
  glyphOrigin : Point X
  prevGlyphX : X
  firstGlyphX : X

/-- What the loop does at a glyph. -/
structure GlyphStep (X C : Type) where
  boundary : WrapBoundary
  index : Nat
  x : X
  /-- Half of the largest width of a glyph in its font. -/
  halfMax : X
  /-- Where the glyph before ends on its visual line. -/
  endX : X
  /-- The line is wrapped before the glyph. -/
  wrapped : Bool
  /-- `glyph.index < run_end`. -/
  inRun : Bool
  /-- Where the glyph is painted. -/
  origin : Point X
  /-- The next decoration run, if one is looked for, and if there is one. -/
  styleRun : Option (Option (DecorationRun X C))

/-- The open stroke of a decoration, and the strokes painted so far. -/
structure Decorating (X S : Type) where
  current : Option (Point X × S)
  strokes : List (Stroke X S)

namespace LinePaint

variable {X C S : Type} [Field X] [LinearOrder X]

def endOfLine (line : LinePaint X C) (wrapBoundary : Option WrapBoundary) : Run X :=
  match wrapBoundary with
  | some boundary => (line.layout.glyphAt boundary).map ShapedGlyph.x
  | none          => .ok line.layout.width

def alignedOriginX (line : LinePaint X C) (lastGlyphX : X) (wrapBoundary : Option WrapBoundary) :
    Run X := do
  let endOfLine ← line.endOfLine wrapBoundary
  let lineWidth := endOfLine - lastGlyphX
  let alignWidth := line.alignWidth.getD line.layout.width
  match line.align with
  | .left   => .ok line.origin.x
  | .center => .ok ((line.origin.x * (2 : Nat) + alignWidth - lineWidth) / (2 : Nat))
  | .right  => .ok (line.origin.x + alignWidth - lineWidth)

def startCursor (line : LinePaint X C) : Run (GlyphCursor X C) := do
  let x ← line.alignedOriginX 0 line.wrapBoundaries.head?
  .ok { decorationRuns := line.decorationRuns
        wraps := line.wrapBoundaries
        runEnd := 0
        glyphOrigin := ⟨x, line.origin.y⟩
        prevGlyphX := 0
        firstGlyphX := line.origin.x }

/-- Wraps the line before a glyph at a boundary: where the glyph is painted, and the
    boundaries that are left. -/
def wrapAt (line : LinePaint X C) (cursor : GlyphCursor X C) (boundary : WrapBoundary)
    (x endX : X) :
    Run (Bool × Point X × List WrapBoundary) :=
  if cursor.wraps.head? = some boundary then do
    let originX ← line.alignedOriginX x cursor.wraps.tail.head?
    .ok (true, ⟨originX, cursor.glyphOrigin.y + line.lineHeight⟩, cursor.wraps.tail)
  else .ok (false, ⟨endX, cursor.glyphOrigin.y⟩, cursor.wraps)

/-- The next style run, without those that apply to a partial glyph. -/
def nextStyleRun (index : Nat) :
    Nat → List (DecorationRun X C) →
      Option (DecorationRun X C) × List (DecorationRun X C) × Nat
  | runEnd, [] => (none, [], runEnd)
  | runEnd, run :: rest =>
      if index < runEnd + run.len then (some run, rest, runEnd + run.len)
      else nextStyleRun index (runEnd + run.len) rest

/-- The run that begins at a glyph, the runs that are left, and where it ends. -/
def changeRun (line : LinePaint X C) (cursor : GlyphCursor X C) (index : Nat) :
    Option (Option (DecorationRun X C)) × List (DecorationRun X C) × Nat :=
  if cursor.runEnd ≤ index then
    match nextStyleRun index cursor.runEnd cursor.decorationRuns with
    | (some run, rest, runEnd) => (some (some run), rest, runEnd)
    | (none, rest, _)          => (some none, rest, line.layout.len)
  else (none, cursor.decorationRuns, cursor.runEnd)

/-- The step from glyph to glyph; `maxGlyphSize` are the sizes of the bounding boxes of
    the fonts. -/
def next (line : LinePaint X C) (maxGlyphSize : Nat → X → Size X) (cursor : GlyphCursor X C)
    (glyph : RunGlyph X) : Run (GlyphStep X C × GlyphCursor X C) := do
  let endX := cursor.glyphOrigin.x + (glyph.glyph.x - cursor.prevGlyphX)
  let (wrapped, origin, wraps) ← line.wrapAt cursor glyph.boundary glyph.glyph.x endX
  let (styleRun, decorationRuns, runEnd) := line.changeRun cursor glyph.glyph.index
  .ok (
    { boundary := glyph.boundary
      index := glyph.glyph.index
      x := glyph.glyph.x
      halfMax := (maxGlyphSize glyph.fontId line.layout.fontSize).width / (2 : Nat)
      endX := endX
      wrapped := wrapped
      inRun := glyph.glyph.index < cursor.runEnd
      origin := origin
      styleRun := styleRun },
    { decorationRuns := decorationRuns
      wraps := wraps
      runEnd := runEnd
      glyphOrigin := origin
      prevGlyphX := glyph.glyph.x
      firstGlyphX := if glyph.boundary = ⟨0, 0⟩ then endX else cursor.firstGlyphX })

/-- Half of the largest width of a glyph in the last font. -/
def lastHalfMax (line : LinePaint X C) (maxGlyphSize : Nat → X → Size X) : X :=
  match line.layout.runs.getLast? with
  | some run => (maxGlyphSize run.fontId line.layout.fontSize).width / (2 : Nat)
  | none     => 0

/-- Where the last visual line ends, for one that starts at a position. -/
def lastLineEndX (line : LinePaint X C) (startX : X) : Run X :=
  match line.wrapBoundaries.getLast? with
  | some boundary => (line.layout.glyphAt boundary).map
      (fun glyph => startX + line.layout.width - glyph.x)
  | none => .ok (startX + line.layout.width)

end LinePaint

/-! ## Strokes -/

namespace Decorating

variable {X C S : Type} [Field X] [LinearOrder X]

def start : Decorating X S where
  current := none
  strokes := []

/-- A stroke without width starts half a glyph before. -/
def strokeOrigin (origin : Point X) (endX halfMax : X) : Point X :=
  if endX = origin.x then ⟨origin.x - halfMax, origin.y⟩ else origin

/-- The stroke from its origin up to a position. -/
def strokeTo (origin : Point X) (style : S) (endX halfMax : X) : Stroke X S where
  origin := strokeOrigin origin endX halfMax
  width := endX - (strokeOrigin origin endX halfMax).x
  style := style

/-- The stroke of a decoration whose style ends. -/
def finishedStroke (kind : DecorationKind X C S) (origin : Point X) (style : S)
    (endX halfMax : X) : Stroke X S :=
  if kind.keepsWidth then
    { strokeTo origin style endX halfMax with width := endX - origin.x }
  else strokeTo origin style endX halfMax

/-- The line is wrapped: the open stroke is painted, and goes on at the start of the next
    visual line if its run does. -/
def wrap (line : LinePaint X C) (step : GlyphStep X C) (decorating : Decorating X S) :
    Decorating X S :=
  match decorating.current with
  | none => decorating
  | some (origin, style) =>
      { strokes := decorating.strokes ++ [strokeTo origin style step.endX step.halfMax]
        current :=
          if step.inRun then some (⟨line.origin.x, origin.y + line.lineHeight⟩, style)
          else none }

/-- A stroke is opened at a glyph, if none is open. -/
def openAt (kind : DecorationKind X C S) (step : GlyphStep X C) (run : DecorationRun X C)
    (current : Option (Point X × S)) : Option (Point X × S) :=
  match current, kind.style run.toDecoration with
  | none, some style => some (⟨step.origin.x, step.origin.y + kind.offsetY⟩, style)
  | current, _       => current

/-- The stroke that is finished by the next run, and the one that is open then. -/
def change (kind : DecorationKind X C S) (step : GlyphStep X C)
    (styleRun : Option (DecorationRun X C)) (current : Option (Point X × S)) :
    Option (Point X × S) × Option (Point X × S) :=
  match styleRun, current with
  | some run, some (_, style) =>
      if kind.continues run.toDecoration style then (none, openAt kind step run current)
      else (current, openAt kind step run none)
  | some run, none => (none, openAt kind step run none)
  | none, current  => (current, none)

/-- A run begins. -/
def enterRun (kind : DecorationKind X C S) (step : GlyphStep X C)
    (styleRun : Option (DecorationRun X C)) (decorating : Decorating X S) : Decorating X S :=
  match change kind step styleRun decorating.current with
  | (some (origin, style), current) =>
      { strokes := decorating.strokes ++
          [finishedStroke kind origin style step.origin.x step.halfMax]
        current := current }
  | (none, current) => { decorating with current := current }

/-- The step at a glyph. -/
def next (line : LinePaint X C) (kind : DecorationKind X C S) (decorating : Decorating X S)
    (step : GlyphStep X C) : Decorating X S :=
  let decorating := if step.wrapped then decorating.wrap line step else decorating
  match step.styleRun with
  | some styleRun => decorating.enterRun kind step styleRun
  | none          => decorating

/-- The strokes of a line, with the one that is open at its end. -/
def finish (decorating : Decorating X S) (lastLineEndX halfMax : X) : List (Stroke X S) :=
  match decorating.current with
  | some (origin, style) => decorating.strokes ++ [strokeTo origin style lastLineEndX halfMax]
  | none                 => decorating.strokes

end Decorating

namespace LinePaint

variable {X C S : Type} [Field X] [LinearOrder X]

/-! ## Underlines and strikethroughs -/

/-- From the top of a visual line to its baseline. -/
def baselineOffset (line : LinePaint X C) : X :=
  (line.lineHeight - line.layout.ascent - line.layout.descent) / (2 : Nat) + line.layout.ascent

def underlineStyle (run : Decoration X C) : Option (UnderlineStyle X C) :=
  run.underline.map (fun underline =>
    { underline with color := some (underline.color.getD run.color) })

def strikethroughStyle (run : Decoration X C) : Option (StrikethroughStyle X C) :=
  run.strikethrough.map (fun strikethrough =>
    { strikethrough with color := some (strikethrough.color.getD run.color) })

variable [DecidableEq C]

/-- An underline goes on in a run that asks for the very style it is drawn with. -/
def underline (line : LinePaint X C) : DecorationKind X C (UnderlineStyle X C) where
  style := underlineStyle
  continues run style := run.underline = some style
  offsetY := line.baselineOffset + line.layout.descent * ((618 : Nat) / (1000 : Nat))
  keepsWidth := false
  style_of_continues := by
    intro run run' style hstyle hcontinues
    obtain ⟨_, _, rfl⟩ := Option.map_eq_some_iff.1 hstyle
    rw [underlineStyle, of_decide_eq_true hcontinues]
    rfl

def strikethrough (line : LinePaint X C) : DecorationKind X C (StrikethroughStyle X C) where
  style := strikethroughStyle
  continues run style := run.strikethrough = some style
  offsetY := (line.layout.ascent / (2 : Nat) + line.baselineOffset) / (2 : Nat)
  keepsWidth := false
  style_of_continues := by
    intro run run' style hstyle hcontinues
    obtain ⟨_, _, rfl⟩ := Option.map_eq_some_iff.1 hstyle
    rw [strikethroughStyle, of_decide_eq_true hcontinues]
    rfl

/-- Backgrounds are quads as high as a line; their style is a color. -/
def background : DecorationKind X C C where
  style run := run.backgroundColor
  continues run color := run.backgroundColor = some color
  offsetY := 0
  keepsWidth := true
  style_of_continues := by
    intro run run' style _ hcontinues
    exact of_decide_eq_true hcontinues

/-! ## `paint_line` -/

/-- A glyph that is painted; an emoji has no color. -/
structure PaintedGlyph (X C : Type) where
  origin : Point X
  fontId : Nat
  id : Nat
  color : Option C

/-- The variables of `paint_line`, with what it has painted. -/
structure Painting (X C : Type) where
  cursor : GlyphCursor X C
  color : C
  underline : Decorating X (UnderlineStyle X C)
  strikethrough : Decorating X (StrikethroughStyle X C)
  glyphs : List (PaintedGlyph X C)

/-- What a line paints, each kind in its order. -/
structure PaintedLine (X C : Type) where
  underlines : List (Stroke X (UnderlineStyle X C))
  strikethroughs : List (Stroke X (StrikethroughStyle X C))
  glyphs : List (PaintedGlyph X C)

/-- The window that a line is painted in, and its text system. -/
structure PaintContext (X C : Type) where
  /-- The size of the bounding box of a font. -/
  maxGlyphSize : Nat → X → Size X
  contentMask : Bounds X
  black : C

/-- The glyph at a step, if its largest bounds meet the content mask. -/
def paintGlyph (line : LinePaint X C) (context : PaintContext X C) (glyph : RunGlyph X)
    (step : GlyphStep X C) (color : C) : List (PaintedGlyph X C) :=
  let maxGlyphSize := context.maxGlyphSize glyph.fontId line.layout.fontSize
  if (Bounds.mk step.origin maxGlyphSize).intersects context.contentMask then
    [{ origin := ⟨step.origin.x, step.origin.y + line.baselineOffset + glyph.glyph.y⟩
       fontId := glyph.fontId
       id := glyph.glyph.id
       color := if glyph.glyph.isEmoji then none else some color }]
  else []

/-- The color at a step. -/
def colorAt (step : GlyphStep X C) (color : C) : C :=
  match step.styleRun with
  | some (some run) => run.color
  | _               => color

/-- The body of the loop of `paint_line`. -/
def paintNext (line : LinePaint X C) (context : PaintContext X C) (painting : Painting X C)
    (glyph : RunGlyph X) : Run (Painting X C) := do
  let (step, cursor) ← line.next context.maxGlyphSize painting.cursor glyph
  let color := colorAt step painting.color
  .ok { cursor := cursor
        color := color
        underline := painting.underline.next line line.underline step
        strikethrough := painting.strikethrough.next line line.strikethrough step
        glyphs := painting.glyphs ++ line.paintGlyph context glyph step color }

def paintLine (line : LinePaint X C) (context : PaintContext X C) : Run (PaintedLine X C) := do
  let cursor ← line.startCursor
  let painting ← line.layout.runGlyphs.foldlM (line.paintNext context)
    { cursor := cursor
      color := context.black
      underline := .start
      strikethrough := .start
      glyphs := [] }
  let lastLineEndX ← line.lastLineEndX painting.cursor.firstGlyphX
  let halfMax := line.lastHalfMax context.maxGlyphSize
  .ok { underlines := painting.underline.finish lastLineEndX halfMax
        strikethroughs := painting.strikethrough.finish lastLineEndX halfMax
        glyphs := painting.glyphs }

/-! ## `paint_line_background` -/

/-- The body of the loop of `paint_line_background`. -/
def paintBackgroundNext (line : LinePaint X C) (context : PaintContext X C)
    (painting : GlyphCursor X C × Decorating X C) (glyph : RunGlyph X) :
    Run (GlyphCursor X C × Decorating X C) := do
  let (step, cursor) ← line.next context.maxGlyphSize painting.1 glyph
  .ok (cursor, painting.2.next line background step)

/-- The backgrounds of a line, without their height. -/
def paintLineBackground (line : LinePaint X C) (context : PaintContext X C) :
    Run (List (Stroke X C)) := do
  let cursor ← line.startCursor
  let (_, decorating) ← line.layout.runGlyphs.foldlM (line.paintBackgroundNext context)
    (cursor, .start)
  let lastLineEndX ← line.lastLineEndX line.origin.x
  .ok (decorating.finish lastLineEndX (line.lastHalfMax context.maxGlyphSize))

end LinePaint

end Gpui
