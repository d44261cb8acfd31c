import Gpui.Text.LineLayout

/-! # The visual lines of a layout

    The boundaries cut the glyphs of a line into visual lines.  Here the loop that computes
    them is followed from glyph to glyph: its last boundary is where the open line starts,
    and its candidate is a glyph of this line. -/

namespace Gpui

open List

namespace LineLayout

variable {X : Type} [Field X] [LinearOrder X]

/-! ### Section 1: Lines -/

/-- The glyphs of a line, and the position where it ends. -/
structure VisualLine (X : Type) where
  glyphs : List (GlyphAt X)
  endX : X

def VisualLine.width (line : VisualLine X) : X :=
  match line.glyphs with
  | []         => 0
  | first :: _ => line.endX - first.x

/-- Where the glyphs that are left start. -/
def nextX (width : X) : List (GlyphAt X) → X
  | []         => width
  | glyph :: _ => glyph.x

/-- The glyphs before a boundary. -/
def lineBefore (boundary : WrapBoundary) (glyphs : List (GlyphAt X)) : List (GlyphAt X) :=
  glyphs.takeWhile (fun glyph => glyph.boundary.lt boundary)

def restFrom (boundary : WrapBoundary) (glyphs : List (GlyphAt X)) : List (GlyphAt X) :=
  glyphs.dropWhile (fun glyph => glyph.boundary.lt boundary)

/-- The lines that end at boundaries. -/
def closedLines (width : X) : List (GlyphAt X) → List WrapBoundary → List (VisualLine X)
  | _, [] => []
  | glyphs, boundary :: rest =>
      ⟨lineBefore boundary glyphs, nextX width (restFrom boundary glyphs)⟩ ::
        closedLines width (restFrom boundary glyphs) rest

/-- The glyphs behind all boundaries. -/
def openLine (glyphs : List (GlyphAt X)) (boundaries : List WrapBoundary) :
    List (GlyphAt X) :=
  boundaries.foldl (fun glyphs boundary => restFrom boundary glyphs) glyphs

/-- All lines; the last one ends with the text. -/
def visualLines (layout : LineLayout X) (boundaries : List WrapBoundary) :
    List (VisualLine X) :=
  closedLines layout.width layout.glyphs boundaries ++
    [⟨openLine layout.glyphs boundaries, layout.width⟩]

section

omit [Field X] [LinearOrder X]

theorem openLine_append (glyphs : List (GlyphAt X)) (boundaries more : List WrapBoundary) :
    openLine glyphs (boundaries ++ more) = openLine (openLine glyphs boundaries) more := by
  rw [openLine, foldl_append]
  rfl

theorem closedLines_append (width : X) (glyphs : List (GlyphAt X))
    (boundaries more : List WrapBoundary) :
    closedLines width glyphs (boundaries ++ more)
      = closedLines width glyphs boundaries ++
        closedLines width (openLine glyphs boundaries) more := by
  induction boundaries generalizing glyphs with
  | nil => rfl
  | cons boundary rest ih =>
    rw [cons_append, closedLines, closedLines, ih, cons_append]
    rfl

end

variable {glyph : GlyphAt X} {width : X} {w : Wrapping X} {rest : List (GlyphAt X)}

omit [Field X] [LinearOrder X] in
/-- A boundary cuts sorted glyphs before its own. -/
theorem cut_at {front back : List (GlyphAt X)}
    (hsorted : (front ++ glyph :: back).Pairwise (fun a b => a.boundary.lt b.boundary = true)) :
    lineBefore glyph.boundary (front ++ glyph :: back) = front ∧
      restFrom glyph.boundary (front ++ glyph :: back) = glyph :: back := by
  have hfront : ∀ other ∈ front, other.boundary.lt glyph.boundary = true := by
    intro other hother
    exact (pairwise_append.1 hsorted).2.2 other hother glyph mem_cons_self
  have hself : ¬ glyph.boundary.lt glyph.boundary = true := WrapBoundary.lt_irrefl _
  unfold lineBefore restFrom
  rw [takeWhile_append_of_pos hfront, dropWhile_append_of_pos hfront]
  simp only [takeWhile_cons, dropWhile_cons, hself, Bool.false_eq_true, if_false,
    append_nil, and_self]

/-! ### Section 2: The loop -/

def IsNewline (text : List Char) (glyph : GlyphAt X) : Prop :=
  charAt text glyph.index = .ok '\n'

/-- The state behind a glyph that is no newline. -/
def Wrapping.after (wrapWidth next : X) (w : Wrapping X) (glyph : GlyphAt X) (ch : Char) :
    Wrapping X :=
  let w := w.noteCandidate glyph ch
  if wrapWidth < next - w.lastBoundaryX && w.lastBoundary.lt glyph.boundary then
    { w.breakLine glyph with prevCh := ch }
  else { w with prevCh := ch }

/-- The states of the loop of `compute_wrap_boundaries` without a limit, with the glyphs that
    are left. -/
inductive Visits (layout : LineLayout X) (text : List Char) (wrapWidth : X) :
    Wrapping X → List (GlyphAt X) → Prop where
  | start : Visits layout text wrapWidth Wrapping.start layout.glyphs
  | newline {w : Wrapping X} {glyph : GlyphAt X} {rest : List (GlyphAt X)} :
      Visits layout text wrapWidth w (glyph :: rest) → IsNewline text glyph →
      Visits layout text wrapWidth w rest
  | glyph {w : Wrapping X} {glyph : GlyphAt X} {rest : List (GlyphAt X)} {ch : Char} :
      Visits layout text wrapWidth w (glyph :: rest) → charAt text glyph.index = .ok ch →
      ch ≠ '\n' →
      Visits layout text wrapWidth (w.after wrapWidth (nextX layout.width rest) glyph ch) rest

omit [Field X] [LinearOrder X] in
theorem peekX_eq {text : List Char} {glyphs : List (GlyphAt X)}
    (hvalid : IndexValid text glyphs) : peekX text width glyphs = .ok (nextX width glyphs) := by
  cases glyphs with
  | nil => rfl
  | cons glyph rest =>
    obtain ⟨ch, hch⟩ := hvalid glyph mem_cons_self
    rw [peekX, hch]
    rfl

variable {layout : LineLayout X} {text : List Char} {wrapWidth : X}

theorem wrapGlyphs_newline (hch : IsNewline text glyph) :
    wrapGlyphs text width wrapWidth none w (glyph :: rest)
      = wrapGlyphs text width wrapWidth none w rest := by
  rw [wrapGlyphs, hch]
  rfl

theorem wrapGlyphs_glyph (hvalid : IndexValid text rest) {ch : Char}
    (hch : charAt text glyph.index = .ok ch) (hne : ch ≠ '\n') :
    wrapGlyphs text width wrapWidth none w (glyph :: rest)
      = wrapGlyphs text width wrapWidth none (w.after wrapWidth (nextX width rest) glyph ch)
          rest := by
  have hbeq : (ch == '\n') = false := beq_eq_false_iff_ne.2 hne
  rw [wrapGlyphs, hch, Exec.ok_bind, hbeq]
  simp only [Bool.false_eq_true, if_false, peekX_eq hvalid, Exec.ok_bind, atLimit]
  unfold Wrapping.after
  dsimp only
  split
  · rfl
  · rfl

theorem Visits.suffix
    (h : Visits layout text wrapWidth w rest) : rest <:+ layout.glyphs := by
  induction h with
  | start => exact suffix_refl _
  | newline _ _ ih | glyph _ _ _ ih => exact (suffix_cons _ _).trans ih

/-- The boundaries are those that the loop finds from any state on its way. -/
theorem Visits.result (hvalid : IndexValid text layout.glyphs)
    (h : Visits layout text wrapWidth w rest) :
    layout.computeWrapBoundaries text wrapWidth none
      = wrapGlyphs text layout.width wrapWidth none w rest := by
  induction h with
  | start => rfl
  | newline _ hch ih => rw [ih, wrapGlyphs_newline hch]
  | glyph hvisits hch hne ih =>
    have hrest := (suffix_cons _ _).trans hvisits.suffix
    rw [ih, wrapGlyphs_glyph (fun g hg => hvalid g (hrest.subset hg)) hch hne]

/-- The loop comes to an end. -/
theorem Visits.ends (hvalid : IndexValid text layout.glyphs)
    (h : Visits layout text wrapWidth w rest) :
    ∃ w', Visits layout text wrapWidth w' [] := by
  induction rest generalizing w with
  | nil => exact ⟨w, h⟩
  | cons glyph rest ih =>
    obtain ⟨ch, hch⟩ := hvalid glyph (h.suffix.subset mem_cons_self)
    by_cases hne : ch = '\n'
    · rw [hne] at hch
      exact ih (.newline h hch)
    · exact ih (.glyph h hch hne)

end LineLayout

end Gpui
