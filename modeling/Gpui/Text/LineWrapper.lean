import Gpui.Panic

/-! # The line wrapper: the model

    Where a line of text is broken so that it fits into a width.  Widths are in an
    ordered field `X`, the width of a character is a function, and an index into a text
    is one of bytes. -/

namespace Gpui

/-- The length of a text in bytes. -/
def utf8Len (text : List Char) : Nat :=
  (text.map Char.utf8Size).sum

/-- `&text[..ix]` -/
def sliceTo : List Char → Nat → Run (List Char)
  | _,         0     => .ok []
  | [],        _ + 1 => .error .indexOutOfRange
  | c :: text, n + 1 =>
      if n + 1 < c.utf8Size then .error .indexOutOfRange
      else (sliceTo text (n + 1 - c.utf8Size)).map (fun rest => c :: rest)

/-- `&text[ix..]` -/
def sliceFrom : List Char → Nat → Run (List Char)
  | text,      0     => .ok text
  | [],        _ + 1 => .error .indexOutOfRange
  | c :: text, n + 1 =>
      if n + 1 < c.utf8Size then .error .indexOutOfRange
      else sliceFrom text (n + 1 - c.utf8Size)

namespace LineWrapper

/-! ## Characters -/

/-- The code point of `c` lies between two others. -/
def between (c : Char) (first last : Nat) : Bool :=
  first ≤ c.toNat && c.toNat ≤ last

/-- Characters that a line is not broken at. -/
def isWordChar (c : Char) : Bool :=
  c.isAlphanum
    || between c 0x00C0 0x00FF      -- Latin-1 Supplement
    || between c 0x0100 0x017F      -- Latin Extended-A
    || between c 0x0180 0x024F      -- Latin Extended-B
    || between c 0x0400 0x04FF      -- Cyrillic
    || between c 0x1E00 0x1EFF      -- Latin Extended Additional
    || between c 0x0300 0x036F      -- Combining Diacritical Marks
    || between c 0x0980 0x09FF      -- Bengali
    || c ∈ ['-', '_', '.', '\'', '’', '‘', '$', '%', '@', '#', '^', '~', ',', '=', ':', ';']
    || c ∈ ['!', ')', ']', '\x7d', '"', '”', '»', '…']
    || c == '⋯'
    || c ∈ ['\u202F', '\u00A0', '\u2011']

theorem ne_space_of_isWordChar {c : Char} (h : isWordChar c = true) : c ≠ ' ' := by
  intro heq
  subst heq
  revert h
  decide

/-! ## `wrap_line` -/

/-- A piece of a line: text, or an element of fixed width. -/
inductive LineFragment (X : Type) where
  | text (text : List Char)
  | element (width : X) (lenUtf8 : Nat)

inductive WrapBoundaryCandidate (X : Type) where
  | char (character : Char)
  | element (width : X) (lenUtf8 : Nat)

def LineFragment.wrapBoundaryCandidates {X : Type} :
    LineFragment X → List (WrapBoundaryCandidate X)
  | .text content          => content.map .char
  | .element width lenUtf8 => [.element width lenUtf8]

def WrapBoundaryCandidate.lenUtf8 {X : Type} : WrapBoundaryCandidate X → Nat
  | .char character    => character.utf8Size
  | .element _ lenUtf8 => lenUtf8

/-- A boundary between two lines of text. -/
structure Boundary where
  ix : Nat
  nextIndent : Nat
deriving DecidableEq

/-- The variables of the loop of `wrap_line`. -/
structure Wrapping (X : Type) where
  width : X
  firstNonWhitespaceIx : Option Nat
  indent : Option Nat
  lastCandidateIx : Nat
  lastCandidateWidth : X
  lastWrapIx : Nat
  prevC : Char
  index : Nat

def maxIndent : Nat := 256

/-- The indent of a line that starts with some blanks, as a `u32`. -/
def indentOf (firstNonWhitespaceIx lastWrapIx : Nat) : Nat :=
  min maxIndent ((firstNonWhitespaceIx - lastWrapIx) % 2 ^ 32)

variable {X : Type} [Field X] [LinearOrder X]

namespace Wrapping

def start : Wrapping X where
  width := 0
  firstNonWhitespaceIx := none
  indent := none
  lastCandidateIx := 0
  lastCandidateWidth := 0
  lastWrapIx := 0
  prevC := '\x00'
  index := 0

/-- A line may be broken before a word that follows a space, and before every character
    that is no part of a word. -/
def isCandidate (st : Wrapping X) (c : Char) : Bool :=
  if isWordChar c then st.prevC == ' ' && c != ' ' && st.firstNonWhitespaceIx.isSome
  else c != ' ' && st.firstNonWhitespaceIx.isSome

def noteCandidate (st : Wrapping X) (ix : Nat) : Wrapping X :=
  { st with lastCandidateIx := ix, lastCandidateWidth := st.width }

def noteChar (st : Wrapping X) (ix : Nat) (c : Char) : Wrapping X :=
  let st := if st.isCandidate c then st.noteCandidate ix else st
  if c != ' ' && st.firstNonWhitespaceIx.isNone then
    { st with firstNonWhitespaceIx := some ix }
  else st

def noteElement (st : Wrapping X) (ix : Nat) : Wrapping X :=
  let st := if st.prevC == ' ' && st.firstNonWhitespaceIx.isSome then st.noteCandidate ix else st
  if st.firstNonWhitespaceIx.isNone then { st with firstNonWhitespaceIx := some ix } else st

/-- The indent of the lines after the first, once it is known. -/
def nextIndent (st : Wrapping X) : Option Nat :=
  match st.indent, st.firstNonWhitespaceIx with
  | none, some firstNonWhitespaceIx => some (indentOf firstNonWhitespaceIx st.lastWrapIx)
  | indent, _                       => indent

end Wrapping

/-- The width of an indent. -/
def indentWidth (widthForChar : Char → X) (indent : Option Nat) : X :=
  match indent with
  | some indent => widthForChar ' ' * indent
  | none        => 0

namespace Wrapping

/-- Breaks the line, at the last candidate if there is one. -/
def breakLine (widthForChar : Char → X) (st : Wrapping X) (ix : Nat) (itemWidth : X) :
    Wrapping X :=
  let indent := st.nextIndent
  let st := if 0 < st.lastCandidateIx then
      { st with
        lastWrapIx := st.lastCandidateIx
        width := st.width - st.lastCandidateWidth
        lastCandidateIx := 0 }
    else { st with lastWrapIx := ix, width := itemWidth }
  { st with indent := indent, width := st.width + indentWidth widthForChar indent }

/-- One item more on the line.  After a break the previous character stays what it was. -/
def advance (widthForChar : Char → X) (wrapWidth : X) (st : Wrapping X) (ix : Nat)
    (itemWidth : X) (newPrevC : Char) : Wrapping X × Option Boundary :=
  let st := { st with width := st.width + itemWidth }
  if wrapWidth < st.width ∧ st.lastWrapIx < ix then
    let st := st.breakLine widthForChar ix itemWidth
    (st, some ⟨st.lastWrapIx, st.indent.getD 0⟩)
  else ({ st with prevC := newPrevC }, none)

def step (widthForChar : Char → X) (wrapWidth : X) (st : Wrapping X)
    (candidate : WrapBoundaryCandidate X) : Wrapping X × Option Boundary :=
  let ix := st.index
  let st := { st with index := st.index + candidate.lenUtf8 }
  match candidate with
  | .char c =>
      if c = '\n' then (st, none)
      else (st.noteChar ix c).advance widthForChar wrapWidth ix (widthForChar c) c
  | .element width _ => (st.noteElement ix).advance widthForChar wrapWidth ix width st.prevC

end Wrapping

/-- The boundaries found from a state on. -/
def wrapFrom (widthForChar : Char → X) (wrapWidth : X) :
    Wrapping X → List (WrapBoundaryCandidate X) → List Boundary
  | _, [] => []
  | st, candidate :: rest =>
      let (st, boundary) := st.step widthForChar wrapWidth candidate
      boundary.toList ++ wrapFrom widthForChar wrapWidth st rest

def wrapLine (widthForChar : Char → X) (fragments : List (LineFragment X)) (wrapWidth : X) :
    List Boundary :=
  wrapFrom widthForChar wrapWidth Wrapping.start
    (fragments.flatMap LineFragment.wrapBoundaryCandidates)

end LineWrapper

end Gpui
