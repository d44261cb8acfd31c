import Gpui.Text.LineWrapper

/-! # Truncation of lines: the model

    `truncate_line` cuts a line to one width, `truncate_wrapped_line` to a number of
    wrapped lines.  Both put an affix where they cut, and shorten the runs of the text. -/

namespace Gpui

namespace LineWrapper

/-- Where a text is truncated. -/
inductive TruncateFrom where
  | start
  | stop
  | middle
deriving DecidableEq

/-- A run of text; `S` is its font, color and decoration. -/
structure TextRun (S : Type) where
  len : Nat
  style : S
deriving DecidableEq

/-- `char::is_whitespace` -/
def isWhitespace (c : Char) : Bool :=
  between c 0x09 0x0D || c == ' ' || c == '\u0085' || c == '\u00A0' || c == '\u1680'
    || between c 0x2000 0x200A || c == '\u2028' || c == '\u2029' || c == '\u202F'
    || c == '\u205F' || c == '\u3000'

/-- `char::is_ascii_punctuation` -/
def isAsciiPunctuation (c : Char) : Bool :=
  between c 0x21 0x2F || between c 0x3A 0x40 || between c 0x5B 0x60 || between c 0x7B 0x7E

/-- What is cut off before the affix, as well. -/
def isTrimmed (c : Char) : Bool :=
  isWhitespace c || isAsciiPunctuation c

/-- `a - b` on unsigned numbers. -/
def checkedSub (a b : Nat) : Run Nat :=
  if b ≤ a then .ok (a - b) else .error .subOverflow

variable {S : Type}

/-! ## Runs -/

/-- Shortens the runs to `truncateAt` bytes and an affix, from the front. -/
def cutRuns (affixLen : Nat) : Nat → List (TextRun S) → List (TextRun S)
  | _, [] => []
  | truncateAt, run :: rest =>
      if run.len ≤ truncateAt then run :: cutRuns affixLen (truncateAt - run.len) rest
      else [{ run with len := truncateAt + affixLen }]

def updateRunsAfterTruncation (result ellipsis : List Char) (runs : List (TextRun S))
    (truncateFrom : TruncateFrom) : Run (List (TextRun S)) := do
  let truncateAt ← checkedSub (utf8Len result) (utf8Len ellipsis)
  match truncateFrom with
  | .start  => return (cutRuns (utf8Len ellipsis) truncateAt runs.reverse).reverse
  | .stop   => return cutRuns (utf8Len ellipsis) truncateAt runs
  | .middle => .error .unreachableCode

/-- The runs before the affix, what is left to go, and whether a run was cut. -/
def frontRuns (affixLen : Nat) : Nat → List (TextRun S) → List (TextRun S) × Bool
  | _, [] => ([], false)
  | frontRemaining, run :: rest =>
      if run.len ≤ frontRemaining then
        let (runs, done) := frontRuns affixLen (frontRemaining - run.len) rest
        (run :: runs, done)
      else ([{ run with len := frontRemaining + affixLen }], true)

/-- The runs from a byte position on. -/
def backRuns (backStartIx : Nat) : Nat → List (TextRun S) → List (TextRun S)
  | _, [] => []
  | bytePos, run :: rest =>
      let runEnd := bytePos + run.len
      let kept :=
        if backStartIx < runEnd then
          if bytePos < backStartIx then [{ run with len := runEnd - backStartIx }] else [run]
        else []
      kept ++ backRuns backStartIx runEnd rest

/-- The affix lengthens the last run, or has a run of its own. -/
def addAffixRun (affixLen : Nat) (originalRuns resultRuns : List (TextRun S)) :
    List (TextRun S) :=
  match resultRuns.getLast? with
  | some last => resultRuns.dropLast ++ [{ last with len := last.len + affixLen }]
  | none =>
      match originalRuns.head? with
      | some first => [{ first with len := affixLen }]
      | none       => []

def updateRunsAfterMiddleTruncation (ellipsis : List Char) (runs : List (TextRun S))
    (frontEndIx backStartIx : Nat) : List (TextRun S) :=
  let (front, frontDone) := frontRuns (utf8Len ellipsis) frontEndIx runs
  let front := if frontDone then front else addAffixRun (utf8Len ellipsis) runs front
  front ++ backRuns backStartIx 0 runs

/-! ## `truncate_line` -/

variable {X : Type} [Field X] [LinearOrder X] [FloorRing X] (widthForChar : Char → X)

/-- The width of a text on one line. -/
def textWidth (text : List Char) : X :=
  (text.map widthForChar).sum

/-- The characters of a line with their byte indices. -/
def charIndices : Nat → List Char → List (Nat × Char)
  | _, [] => []
  | ix, c :: rest => (ix, c) :: charIndices (ix + c.utf8Size) rest

/-- The loop of `should_truncate_line`, over the characters in one of the directions. -/
def shouldTruncate (truncateWidth suffixWidth : X) :
    X → Nat → List (Nat × Char) → Option Nat
  | _, _, [] => none
  | width, truncateIx, (ix, c) :: rest =>
      let truncateIx := if width + suffixWidth < truncateWidth then ix else truncateIx
      let width := width + widthForChar c
      if truncateWidth < ((⌊width⌋ : Int) : X) then some truncateIx
      else shouldTruncate truncateWidth suffixWidth width truncateIx rest

def shouldTruncateLine (line : List Char) (truncateWidth : X) (truncationAffix : List Char)
    (truncateFrom : TruncateFrom) : Option Nat :=
  let suffixWidth := textWidth widthForChar truncationAffix
  match truncateFrom with
  | .start =>
      shouldTruncate widthForChar truncateWidth suffixWidth 0 0 (charIndices 0 line).reverse
  | .stop => shouldTruncate widthForChar truncateWidth suffixWidth 0 0 (charIndices 0 line)
  | .middle => none

/-- The characters that fit into a budget: their width, and the last of them. -/
def fitBudget (budget : X) : X → Option (Nat × Char) → List (Nat × Char) → Option (Nat × Char)
  | _, last, [] => last
  | width, last, (ix, c) :: rest =>
      if budget < width + widthForChar c then last
      else fitBudget budget (width + widthForChar c) (some (ix, c)) rest

def shouldTruncateLineMiddle (line : List Char) (truncateWidth : X)
    (truncationAffix : List Char) : Option (Nat × Nat) :=
  let suffixWidth := textWidth widthForChar truncationAffix
  let totalWidth := textWidth widthForChar line
  if totalWidth ≤ truncateWidth then none
  else
    let contentBudget := truncateWidth - suffixWidth
    if contentBudget ≤ 0 then some (0, utf8Len line)
    else
      let frontBudget := contentBudget * ((2 : Nat) / (3 : Nat))
      let backBudget := contentBudget - frontBudget
      let frontEndIx :=
        match fitBudget widthForChar frontBudget 0 none (charIndices 0 line) with
        | some (ix, c) => ix + c.utf8Size
        | none         => 0
      let backStartIx :=
        match fitBudget widthForChar backBudget 0 none (charIndices 0 line).reverse with
        | some (ix, _) => ix
        | none         => utf8Len line
      if backStartIx ≤ frontEndIx then some (0, utf8Len line)
      else some (frontEndIx, backStartIx)

/-- `ceil_char_boundary` -/
def ceilCharBoundary : List Char → Nat → Nat
  | [],        _     => 0
  | _ :: _,    0     => 0
  | c :: text, n + 1 =>
      if n + 1 < c.utf8Size then c.utf8Size
      else c.utf8Size + ceilCharBoundary text (n + 1 - c.utf8Size)

/-- The text up to an index, without the blanks and punctuation at its end, and the affix;
    and the runs that belong to it. -/
def truncateAtEnd (text : List Char) (truncateIx : Nat) (truncationAffix : List Char)
    (runs : List (TextRun S)) : Run (List Char × List (TextRun S)) := do
  let kept ← sliceTo text truncateIx
  let result := kept.rdropWhile isTrimmed ++ truncationAffix
  let runs ← updateRunsAfterTruncation result truncationAffix runs .stop
  return (result, runs)

def truncateLine (line : List Char) (truncateWidth : X) (truncationAffix : List Char)
    (runs : List (TextRun S)) (truncateFrom : TruncateFrom) :
    Run (List Char × List (TextRun S)) :=
  match truncateFrom with
  | .middle =>
      match shouldTruncateLineMiddle widthForChar line truncateWidth truncationAffix with
      | some (frontEndIx, backStartIx) => do
          let front ← sliceTo line frontEndIx
          let back ← sliceFrom line backStartIx
          return (front ++ truncationAffix ++ back,
            updateRunsAfterMiddleTruncation truncationAffix runs frontEndIx backStartIx)
      | none => return (line, runs)
  | .start =>
      match shouldTruncateLine widthForChar line truncateWidth truncationAffix .start with
      | some truncateIx => do
          let kept ← sliceFrom line (ceilCharBoundary line (truncateIx + 1))
          let result := truncationAffix ++ kept
          let runs ← updateRunsAfterTruncation result truncationAffix runs .start
          return (result, runs)
      | none => return (line, runs)
  | .stop =>
      match shouldTruncateLine widthForChar line truncateWidth truncationAffix .stop with
      | some truncateIx => truncateAtEnd line truncateIx truncationAffix runs
      | none            => return (line, runs)

/-! ## `truncate_wrapped_line` -/

/-- The variables of the loop of `truncate_wrapped_line`. -/
structure Truncating (X : Type) where
  width : X
  line : Nat
  firstNonWhitespaceIx : Option Nat
  lastCandidateIx : Nat
  lastCandidateWidth : X
  lastWrapIx : Nat
  prevC : Char
  indent : Option Nat
  truncateIx : Nat

namespace Truncating

def start : Truncating X where
  width := 0
  line := 0
  firstNonWhitespaceIx := none
  lastCandidateIx := 0
  lastCandidateWidth := 0
  lastWrapIx := 0
  prevC := '\x00'
  indent := none
  truncateIx := 0

/-- A newline consumes a line. -/
def newline (t : Truncating X) (ix : Nat) : Truncating X where
  width := 0
  line := t.line + 1
  firstNonWhitespaceIx := none
  lastCandidateIx := 0
  lastCandidateWidth := 0
  lastWrapIx := ix + 1
  prevC := '\x00'
  indent := none
  truncateIx := ix + 1

def isCandidate (t : Truncating X) (c : Char) : Bool :=
  if isWordChar c then t.prevC == ' ' && t.firstNonWhitespaceIx.isSome
  else c != ' ' && t.firstNonWhitespaceIx.isSome

def noteChar (t : Truncating X) (ix : Nat) (c : Char) : Truncating X :=
  let t := if t.isCandidate c then
      { t with lastCandidateIx := ix, lastCandidateWidth := t.width }
    else t
  if c != ' ' && t.firstNonWhitespaceIx.isNone then
    { t with firstNonWhitespaceIx := some ix }
  else t

def nextIndent (t : Truncating X) : Option Nat :=
  match t.indent, t.firstNonWhitespaceIx with
  | none, some firstNonWhitespaceIx => some (indentOf firstNonWhitespaceIx t.lastWrapIx)
  | indent, _                       => indent

/-- A line is broken before the last one. -/
def breakLine (t : Truncating X) (ix : Nat) (charWidth : X) : Truncating X :=
  let indent := t.nextIndent
  let t := if t.lastWrapIx < t.lastCandidateIx then
      { t with
        lastWrapIx := t.lastCandidateIx
        width := t.width - t.lastCandidateWidth
        lastCandidateIx := 0 }
    else { t with lastWrapIx := ix, width := charWidth }
  { t with
    indent := indent
    width := t.width + indentWidth widthForChar indent
    line := t.line + 1
    truncateIx := t.lastWrapIx }

end Truncating

/-- The loop of `truncate_wrapped_line`: the index at which the text is truncated, if it
    is. -/
def truncationIx (wrapWidth affixWidth : X) (maxLines : Nat) :
    Truncating X → Nat → List Char → Option Nat
  | _, _, [] => none
  | t, ix, c :: rest =>
      if c = '\n' then
        if maxLines - 1 ≤ t.line ∧ rest.any (fun c => !isWhitespace c) then some t.truncateIx
        else truncationIx wrapWidth affixWidth maxLines (t.newline ix) (ix + 1) rest
      else
        let charWidth := widthForChar c
        let t := t.noteChar ix c
        let t := { t with width := t.width + charWidth }
        if t.line < maxLines - 1 then
          let t := if wrapWidth < t.width ∧ t.lastWrapIx < ix then
              t.breakLine widthForChar ix charWidth
            else t
          truncationIx wrapWidth affixWidth maxLines { t with prevC := c } (ix + c.utf8Size) rest
        else
          let t := if t.width + affixWidth ≤ wrapWidth then
              { t with truncateIx := ix + c.utf8Size }
            else t
          if wrapWidth < t.width then some t.truncateIx
          else
            truncationIx wrapWidth affixWidth maxLines { t with prevC := c } (ix + c.utf8Size)
              rest

def truncateWrappedLine (text : List Char) (wrapWidth : X) (maxLines : Nat)
    (truncationAffix : List Char) (runs : List (TextRun S)) (truncateFrom : TruncateFrom) :
    Run (List Char × List (TextRun S)) :=
  if maxLines ≤ 1 ∨ truncateFrom = .start then
    truncateLine widthForChar text (wrapWidth * maxLines) truncationAffix runs truncateFrom
  else if truncateFrom = .middle then
    truncateLine widthForChar text wrapWidth truncationAffix runs truncateFrom
  else
    let affixWidth := textWidth widthForChar truncationAffix
    match truncationIx widthForChar wrapWidth affixWidth maxLines Truncating.start 0 text with
    | some truncateIx => truncateAtEnd text truncateIx truncationAffix runs
    | none            => .ok (text, runs)

end LineWrapper

end Gpui
