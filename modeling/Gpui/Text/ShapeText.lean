import Gpui.Lib.RunLength
import Gpui.Text.LineLayoutCache

/-! # Decorations of a text

    What is painted under, over and behind the bytes of a text.  Lengths are in an ordered
    field `X`, and `C` are colors. -/

namespace Gpui

variable (X C : Type)

structure UnderlineStyle where
  thickness : X
  color : Option C
  wavy : Bool
deriving DecidableEq

structure StrikethroughStyle where
  thickness : X
  color : Option C
deriving DecidableEq

/-- What a run decorates its text with. -/
structure Decoration where
  color : C
  backgroundColor : Option C
  underline : Option (UnderlineStyle X C)
  strikethrough : Option (StrikethroughStyle X C)
deriving DecidableEq

/-- A run of text with one decoration. -/
structure DecorationRun extends Decoration X C where
  /-- In bytes. -/
  len : Nat
deriving DecidableEq

/-- The decoration of every byte. -/
def decorations {X C : Type} (runs : List (DecorationRun X C)) : List (Decoration X C) :=
  RunLength.expand DecorationRun.len DecorationRun.toDecoration runs

/-- The font of every byte. -/
def fontIds (runs : List FontRun) : List Nat :=
  RunLength.expand FontRun.len FontRun.fontId runs

end Gpui

/-! # Shaping a text of several lines: the model

    The runs of a text are handed out to its lines.  A line takes what it needs from the
    front of the runs, then the newline behind it is skipped.  Each line is laid out through
    the cache, with what is left of the limit on the number of lines. -/

namespace Gpui

namespace WindowTextSystem

/-- A run of text with one font and one decoration; `F` are fonts. -/
structure TextRun (X C F : Type) extends Decoration X C where
  /-- In bytes. -/
  len : Nat
  font : F

/-- A line of text that was shaped, wrapped and decorated.  After the comment follows what
    the layout was asked for. -/
structure WrappedLine (X C : Type) where
  layout : WrappedLineLayout X
  decorationRuns : List (DecorationRun X C)
  text : List Char
  -- the font runs of the line
  fontRuns : List FontRun

/-- An addition of 32-bit numbers. -/
def addU32 (a b : Nat) : Run Nat :=
  if a + b < 2 ^ 32 then .ok (a + b) else .error .addOverflow

def subUsize (a b : Nat) : Run Nat :=
  if b ≤ a then .ok (a - b) else .error .subOverflow

variable {X C F : Type} [DecidableEq X] [DecidableEq C]

/-- The last run is lengthened if it has the decoration of this one.  Whether it has not. -/
def pushDecoration (decorationRuns : List (DecorationRun X C)) (run : TextRun X C F) (len : Nat) :
    Run (List (DecorationRun X C) × Bool) :=
  match decorationRuns.getLast? with
  | some lastRun =>
      if lastRun.toDecoration = run.toDecoration then do
        let lastLen ← addU32 lastRun.len (len % 2 ^ 32)
        .ok (decorationRuns.dropLast ++ [{ lastRun with len := lastLen }], false)
      else .ok (decorationRuns ++ [⟨run.toDecoration, len % 2 ^ 32⟩], true)
  | none => .ok ([⟨run.toDecoration, len % 2 ^ 32⟩], true)

/-- The last run is lengthened if it has this font and the decoration did not change. -/
def pushFont (fontRuns : List FontRun) (fontId len : Nat) (decorationChanged : Bool) :
    List FontRun :=
  match fontRuns.getLast? with
  | some fontRun =>
      if fontId = fontRun.fontId ∧ ¬ decorationChanged then
        fontRuns.dropLast ++ [{ fontRun with len := fontRun.len + len }]
      else fontRuns ++ [⟨len, fontId⟩]
  | none => [⟨len, fontId⟩]

/-- The runs of a line and what is left of the runs of the text. -/
structure LineRuns (X C F : Type) where
  decorationRuns : List (DecorationRun X C)
  fontRuns : List FontRun
  runs : List (TextRun X C F)

/-- The loop over the runs of a line of which `rest` bytes have no run yet. -/
def takeRuns (resolveFont : F → Nat) (rest : Nat) (decorationRuns : List (DecorationRun X C))
    (fontRuns : List FontRun) : List (TextRun X C F) → Run (LineRuns X C F)
  -- the runs do not cover the text
  | [] => .ok ⟨decorationRuns, fontRuns, []⟩
  | run :: runs =>
      if 0 < rest then do
        let runLenWithinLine := min rest run.len
        let (decorationRuns, decorationChanged) ←
          pushDecoration decorationRuns run runLenWithinLine
        let fontRuns := pushFont fontRuns (resolveFont run.font) runLenWithinLine decorationChanged
        let len ← subUsize run.len runLenWithinLine
        if len = 0 then
          takeRuns resolveFont (rest - runLenWithinLine) decorationRuns fontRuns runs
        else
          -- the run goes on behind the line, and nothing of the line is left
          .ok ⟨decorationRuns, fontRuns, { run with len } :: runs⟩
      else .ok ⟨decorationRuns, fontRuns, run :: runs⟩

/-- Skips the newline. -/
def skipNewline : List (TextRun X C F) → Run (List (TextRun X C F))
  | [] => .ok []
  | run :: runs => do
      let len ← subUsize run.len 1
      if len = 0 then .ok runs else .ok ({ run with len } :: runs)

/-- The variables of `shape_text`. -/
structure Shaping (X C F : Type) [Field X] [LinearOrder X] where
  cache : LineLayoutCache X
  runs : List (TextRun X C F)
  wrappedLines : Nat
  lines : List (WrappedLine X C)

variable [Field X] [LinearOrder X]

def processLine (resolveFont : F → Nat) (fontSize : X) (wrapWidth : Option X)
    (maxWrapLines : Option Nat) (st : Shaping X C F) (lineText : List Char) :
    Run (Shaping X C F) := do
  let line ← takeRuns resolveFont (utf8Len lineText) [] [] st.runs
  let (cache, layout) ← st.cache.layoutWrappedLine lineText fontSize line.fontRuns wrapWidth
    (maxWrapLines.map (fun max => max - st.wrappedLines))
  let runs ← skipNewline line.runs
  .ok {
    cache
    runs
    wrappedLines := st.wrappedLines + layout.wrapBoundaries.length
    lines := st.lines ++ [⟨layout, line.decorationRuns, lineText, line.fontRuns⟩] }

/-- The cache and the lines.  A single line is not copied; it is processed in the same way. -/
def shapeText (cache : LineLayoutCache X) (resolveFont : F → Nat) (text : List Char) (fontSize : X)
    (runs : List (TextRun X C F)) (wrapWidth : Option X) (lineClamp : Option Nat) :
    Run (LineLayoutCache X × List (WrappedLine X C)) := do
  let st ← (text.splitOn '\n').foldlM (processLine resolveFont fontSize wrapWidth lineClamp)
    ⟨cache, runs.filter (fun run => 0 < run.len), 0, []⟩
  .ok (st.cache, st.lines)

end WindowTextSystem

end Gpui
