import Gpui.Text.CutSpec
import Gpui.Text.Highlight

/-! # Styled text: the model

    A text element takes highlights and font families for ranges of its text.  Both become
    part of the runs that the text is laid out with, the highlights at once or when the
    element is laid out, the font families always then. -/

namespace Gpui

namespace Elements

open Style (TextRun)

def isCharBoundary (text : List Char) (ix : Nat) : Bool :=
  match sliceFrom text ix with
  | .ok _    => true
  | .error _ => false

def debugAssert (condition : Bool) : Run Unit :=
  if condition then .ok () else .error .debugAssert

structure StyledText (X : Type) where
  text : List Char
  runs : Option (List (TextRun X))
  delayedHighlights : Option (List (TextRange × HighlightStyle X))
  delayedFontFamilyOverrides : Option (List (TextRange × String))

namespace StyledText

variable {X : Type}

def new (text : List Char) : StyledText X := ⟨text, none, none, none⟩

section Highlights

variable [Field X] [LinearOrder X] [FloorRing X]

/-- The loop over the highlights, of which the last one ended at `ix`. -/
def computeRunsFrom (text : List Char) (defaultStyle : Style.TextStyle X) (runs : List (TextRun X))
    (ix : Nat) : List (TextRange × HighlightStyle X) → Run (List (TextRun X))
  | [] =>
      .ok (if ix < utf8Len text then runs ++ [defaultStyle.toRun (utf8Len text - ix)] else runs)
  | (range, highlight) :: highlights => do
      debugAssert (¬ ix < range.start || isCharBoundary text range.start)
      let runs := if ix < range.start then runs ++ [defaultStyle.toRun (range.start - ix)] else runs
      debugAssert (isCharBoundary text range.stop)
      let runs := runs ++ [(defaultStyle.highlight highlight).toRun range.len]
      computeRunsFrom text defaultStyle runs range.stop highlights

def computeRuns (text : List Char) (defaultStyle : Style.TextStyle X)
    (highlights : List (TextRange × HighlightStyle X)) : Run (List (TextRun X)) :=
  computeRunsFrom text defaultStyle [] 0 highlights

end Highlights

/-- What the runs leave of the text. -/
def afterRuns (text : List Char) : List (TextRun X) → Run (List Char)
  | []          => .ok text
  | run :: runs => do afterRuns (← sliceFrom text run.len) runs

/-- Panics ("invalid text run") if the runs are not as long as the text. -/
def withRuns (self : StyledText X) (runs : List (TextRun X)) : Run (StyledText X) := do
  let text ← afterRuns self.text runs
  if text.isEmpty then .ok { self with runs := some runs } else .error .indexOutOfRange

def assertBoundaries {α : Type} (text : List Char) : List (TextRange × α) → Run Unit
  | []                  => .ok ()
  | (range, _) :: items => do
      debugAssert (isCharBoundary text range.start)
      debugAssert (isCharBoundary text range.stop)
      assertBoundaries text items

section Highlights

variable [Field X] [LinearOrder X] [FloorRing X]

def withDefaultHighlights (self : StyledText X) (defaultStyle : Style.TextStyle X)
    (highlights : List (TextRange × HighlightStyle X)) : Run (StyledText X) := do
  debugAssert self.delayedHighlights.isNone
  self.withRuns (← computeRuns self.text defaultStyle highlights)

end Highlights

def withHighlights (self : StyledText X) (highlights : List (TextRange × HighlightStyle X)) :
    Run (StyledText X) := do
  debugAssert self.runs.isNone
  assertBoundaries self.text highlights
  .ok { self with delayedHighlights := some highlights }

def withFontFamilyOverrides (self : StyledText X) (overrides : List (TextRange × String)) :
    Run (StyledText X) := do
  assertBoundaries self.text overrides
  .ok { self with delayedFontFamilyOverrides := some overrides }

/-- The loop over the runs from `byteOffset` on, with the overrides from `override_idx` on. -/
def applyFontFamilyOverrides (byteOffset : Nat) (overrides : List (TextRange × String)) :
    List (TextRun X) → List (TextRun X)
  | [] => []
  | run :: runs =>
      let runEnd := byteOffset + run.len
      let overrides := overrides.dropWhile (fun item => item.1.stop ≤ byteOffset)
      let run :=
        match overrides with
        | [] => run
        | (range, family) :: _ =>
            if range.start ≤ byteOffset ∧ runEnd ≤ range.stop then
              { run with font := { run.font with family } }
            else run
      run :: applyFontFamilyOverrides runEnd overrides runs

section Highlights

variable [Field X] [LinearOrder X] [FloorRing X]

/-- The runs that were given, or else those of the highlights over the style of the window. -/
def takeRuns (self : StyledText X) (textStyle : Style.TextStyle X) :
    Run (Option (List (TextRun X))) :=
  match self.runs with
  | some runs => .ok (some runs)
  | none =>
      match self.delayedHighlights with
      | some delayedHighlights => (computeRuns self.text textStyle delayedHighlights).map some
      | none                   => .ok none

/-- The runs that the text is laid out with, where `textStyle` is the style of the window. -/
def requestLayout (self : StyledText X) (textStyle : Style.TextStyle X) :
    Run (List (TextRun X)) := do
  let runs ← self.takeRuns textStyle
  let wholeText := [textStyle.toRun (utf8Len self.text)]
  let runs :=
    match self.delayedFontFamilyOverrides with
    | some overrides => some (applyFontFamilyOverrides 0 overrides (runs.getD wholeText))
    | none           => runs
  -- the layout of the text takes one run if it gets none
  .ok (runs.getD wholeText)

end Highlights

end StyledText

end Elements

end Gpui
