import Gpui.Text.PaintLineCover

/-! # When decorations lie under their text

    The strokes of a painted line lie under the glyphs that have their decoration just if
    each starts and ends with its stretch.  Those that go on behind a wrap are started at the
    origin of the line, wherever the visual line is aligned to, and the end of the last one
    is reckoned from the start of the first visual line, or from the origin. -/

namespace Gpui

namespace LinePaint

variable {X C S : Type} [Field X] [LinearOrder X] {line : LinePaint X C}
  {kind : DecorationKind X C S}

/-! ### Section 1: The strokes of a kind of decoration -/

section

variable [IsStrictOrderedRing X] {steps : List (GlyphStep X C)} {endX halfMax : X}

omit [IsStrictOrderedRing X] in
theorem Walk.first_openAt {first : GlyphStep X C} {rest : List (GlyphStep X C)}
    (h : line.Walk (first :: rest)) : line.OpenAt kind first (opens kind first) := by
  obtain ⟨hsome, henters⟩ := h.first first rfl
  refine openAt_opens henters ?_
  intro hnone
  rw [hnone] at hsome
  cases hsome

theorem Walk.stretches_meant (h : line.Walk steps) (halfMax : X) {y : X} {style : S} {x : X} :
    (∃ stretch ∈ line.stretches kind halfMax steps, stretch.Meant y style x) ↔
      line.Decorated kind steps y style x := by
  rcases steps with _ | ⟨first, rest⟩
  · constructor
    · intro ⟨_, hmem, _⟩
      cases hmem
    · intro ⟨front, step, rest, heq, _⟩
      simp at heq
  · rw [stretches, stretchesFrom_meant h.chain h.first_openAt halfMax]
    simp only [not_reaches_opens, false_or]

omit [IsStrictOrderedRing X] in
theorem covered_piece {stretch : Stretch X S} {y : X} {style : S} {x : X} :
    (line.piece kind endX stretch).Covered y style x ↔
      (line.strokeOf kind endX stretch).Covers y style x := by
  obtain ⟨hy, hstyle⟩ := strokeOf_frame line kind endX stretch
  unfold Stroke.Covers
  rw [hy, hstyle]
  rfl

/-- The strokes lie under the glyphs if the pieces cover what they are meant to. -/
theorem Walk.underlies_iff (h : line.Walk steps) :
    line.Underlies kind steps (line.strokes kind steps endX halfMax) ↔
      IntervalCover.Covers ((line.stretches kind halfMax steps).map (line.piece kind endX)) ∧
        ∀ stretch ∈ line.stretches kind halfMax steps,
          0 < (line.strokeOf kind endX stretch).width := by
  unfold Underlies IntervalCover.Covers
  rw [h.strokes_eq]
  simp only [List.mem_map, exists_exists_and_eq_and, forall_exists_index, and_imp,
    forall_apply_eq_imp_iff₂, covered_piece, ← h.stretches_meant halfMax]
  rfl

/-- Strokes that fit their stretches cover the decorated glyphs. -/
theorem Walk.underlies_of_fits (h : line.Walk steps)
    (hfits : ∀ stretch ∈ line.stretches kind halfMax steps, line.Fits kind endX stretch) :
    line.Underlies kind steps (line.strokes kind steps endX halfMax) := by
  refine h.underlies_iff.2 ⟨IntervalCover.covers_of_exact ?_, ?_⟩
  · intro piece hmem
    obtain ⟨stretch, hstretch, rfl⟩ := List.mem_map.1 hmem
    exact (hfits stretch hstretch).exact.1
  · intro stretch hstretch
    exact (hfits stretch hstretch).exact.2

omit [IsStrictOrderedRing X] in
/-- Stretches in order have pieces in order. -/
theorem InOrder.precedes {stretch next : Stretch X S} (h : InOrder stretch next)
    (hwidth : 0 < (line.strokeOf kind endX stretch).width)
    (hnext : 0 < (line.strokeOf kind endX next).width) :
    IntervalCover.Precedes (line.piece kind endX stretch) (line.piece kind endX next) := by
  obtain ⟨hlast, hafter⟩ := h
  have hsame : stretch.y = next.y → stretch.stop ≤ next.start ∧ next.carried = false := by
    intro hy
    obtain hlt | ⟨_, hx, hcarried⟩ := hafter
    · exact absurd hy hlt.ne
    · exact ⟨hx, hcarried⟩
  refine ⟨?_, fun hy => (hsame hy).1, ?_⟩
  · rw [piece, strokeOf_right hwidth, strokeEnd, if_neg (by simp [hlast])]
  · intro hy hlt
    have hstart := strokeStart_of_not_carried line (hsame hy).2
    simp only [piece, strokeOf_right hnext] at hlt ⊢
    rw [strokeOf_of_ne (by rw [hstart]; exact hlt.ne')]
    exact hstart

/-- Strokes that cover the decorated glyphs fit their stretches, if these have a width. -/
theorem Walk.fits_of_underlies (h : line.Walk steps) (hheight : 0 < line.lineHeight)
    (hglyphs : ∀ glyph ∈ line.layout.glyphs, glyph.x < line.layout.width)
    (hunderlies : line.Underlies kind steps (line.strokes kind steps endX halfMax)) :
    ∀ stretch ∈ line.stretches kind halfMax steps, line.Fits kind endX stretch := by
  obtain ⟨hcovers, hwidth⟩ := h.underlies_iff.1 hunderlies
  have hsteps : ∀ step ∈ steps, step.x < line.layout.width := by
    intro step hmem
    have hglyph := List.mem_map_of_mem (f := GlyphStep.glyphAt) hmem
    rw [h.glyphs] at hglyph
    exact hglyphs _ hglyph
  obtain ⟨hpairwise, hpos⟩ : (line.stretches kind halfMax steps).Pairwise InOrder ∧
      ∀ stretch ∈ line.stretches kind halfMax steps, stretch.start < stretch.stop := by
    rcases steps with _ | ⟨first, rest⟩
    · exact ⟨List.Pairwise.nil, fun _ hmem => (nomatch hmem)⟩
    · exact ⟨stretchesFrom_pairwise hheight h.chain h.first_openAt halfMax,
        stretchesFrom_pos h.chain hsteps h.first_openAt halfMax⟩
  have hordered : ((line.stretches kind halfMax steps).map (line.piece kind endX)).Pairwise
      IntervalCover.Precedes := by
    refine List.pairwise_map.2 (hpairwise.imp_of_mem ?_)
    intro stretch next hstretch hnext hinorder
    exact hinorder.precedes (hwidth stretch hstretch) (hwidth next hnext)
  have hexact := IntervalCover.exact_of_covers hordered
    (List.forall_mem_map.2 hpos) ?_ hcovers
  · intro stretch hmem
    exact fits_of_exact (hpos stretch hmem) (hexact _ (List.mem_map_of_mem hmem))
  · refine List.forall_mem_map.2 ?_
    intro stretch hmem
    exact lt_add_of_pos_right _ (hwidth stretch hmem)

end

/-! ### Section 2: The decorations of a painted line -/

/-- What is drawn lies under the glyphs that are decorated with it, and has a width. -/
structure DecorationsUnderlie [DecidableEq C] (line : LinePaint X C) (steps : List (GlyphStep X C))
    (painted : PaintedLine X C) (backgrounds : List (Stroke X C)) : Prop where
  underlines : line.Underlies line.underline steps painted.underlines
  strikethroughs : line.Underlies line.strikethrough steps painted.strikethroughs
  backgrounds : line.Underlies background steps backgrounds

/-- The stretches of a decoration fit, if the last visual line ends behind a position. -/
def StretchesFit (line : LinePaint X C) (kind : DecorationKind X C S) (halfMax startX : X)
    (steps : List (GlyphStep X C)) : Prop :=
  ∃ endX, line.lastLineEndX startX = .ok endX ∧
    ∀ stretch ∈ line.stretches kind halfMax steps, line.Fits kind endX stretch

/-- All stretches fit: those of underlines and strikethroughs if the last visual line is
    taken to start with the first glyph, those of backgrounds if it starts at the origin. -/
structure DecorationsFit [DecidableEq C] (line : LinePaint X C) (halfMax : X)
    (steps : List (GlyphStep X C)) : Prop where
  underlines : line.StretchesFit line.underline halfMax (firstGlyphX line.origin.x steps) steps
  strikethroughs :
    line.StretchesFit line.strikethrough halfMax (firstGlyphX line.origin.x steps) steps
  backgrounds : line.StretchesFit background halfMax line.origin.x steps

theorem Walk.underlies_of_stretchesFit [IsStrictOrderedRing X] {steps : List (GlyphStep X C)}
    (h : line.Walk steps) {halfMax startX endX : X} (hend : line.lastLineEndX startX = .ok endX)
    (hfit : line.StretchesFit kind halfMax startX steps) :
    line.Underlies kind steps (line.strokes kind steps endX halfMax) := by
  obtain ⟨endX', hend', hfits⟩ := hfit
  rw [hend] at hend'
  cases hend'
  exact h.underlies_of_fits hfits

/-- **Decorations lie under their text if their stretches fit**, and, on a line whose glyphs
    all have a width, only then. -/
theorem decorations_underlie_iff [IsStrictOrderedRing X] [DecidableEq C] (line : LinePaint X C)
    (hordered : line.layout.Ordered) (hnamed : line.Named) (context : PaintContext X C) :
    ∃ steps painted backgrounds, line.glyphSteps context.maxGlyphSize = .ok steps ∧
      line.paintLine context = .ok painted ∧
      line.paintLineBackground context = .ok backgrounds ∧
      (line.DecorationsFit (line.lastHalfMax context.maxGlyphSize) steps →
        line.DecorationsUnderlie steps painted backgrounds) ∧
      (0 < line.lineHeight → (∀ glyph ∈ line.layout.glyphs, glyph.x < line.layout.width) →
        line.DecorationsUnderlie steps painted backgrounds →
        line.DecorationsFit (line.lastHalfMax context.maxGlyphSize) steps) := by
  obtain ⟨steps, endX, backgroundEndX, painted, hsteps, hwalk, hend, hbackgroundEnd, hpainted,
    hunderlines, hstrikethroughs, hbackgrounds⟩ := hnamed.paint_returns hordered context
  refine ⟨steps, painted, _, hsteps, hpainted, hbackgrounds, ?_, ?_⟩
  · intro hfit
    refine ⟨?_, ?_, hwalk.underlies_of_stretchesFit hbackgroundEnd hfit.backgrounds⟩
    · rw [hunderlines]
      exact hwalk.underlies_of_stretchesFit hend hfit.underlines
    · rw [hstrikethroughs]
      exact hwalk.underlies_of_stretchesFit hend hfit.strikethroughs
  · intro hheight hwidth hunderlie
    have hunderline := hunderlie.underlines
    have hstrikethrough := hunderlie.strikethroughs
    rw [hunderlines] at hunderline
    rw [hstrikethroughs] at hstrikethrough
    exact ⟨⟨endX, hend, hwalk.fits_of_underlies hheight hwidth hunderline⟩,
      ⟨endX, hend, hwalk.fits_of_underlies hheight hwidth hstrikethrough⟩,
      ⟨backgroundEndX, hbackgroundEnd,
        hwalk.fits_of_underlies hheight hwidth hunderlie.backgrounds⟩⟩

/-- Two underlined glyphs, each on its visual line. -/
def underlined (align : TextAlign) : LinePaint ℚ ℕ where
  origin := ⟨0, 0⟩
  layout := LineLayout.twoGlyphs
  lineHeight := 10
  align := align
  alignWidth := some 30
  decorationRuns := [⟨⟨0, none, some ⟨1, none, false⟩, none⟩, 2⟩]
  wrapBoundaries := [⟨0, 1⟩]

def wideContext : PaintContext ℚ ℕ where
  maxGlyphSize := fun _ _ => ⟨12, 12⟩
  contentMask := ⟨⟨0, 0⟩, ⟨100, 100⟩⟩
  black := 0

theorem underlined_named (align : TextAlign) : (underlined align).Named := by
  have hnamed : ∀ boundary ∈ [(⟨0, 1⟩ : WrapBoundary)],
      ∃ glyph ∈ LineLayout.twoGlyphs.glyphs, glyph.boundary = boundary := by decide +kernel
  exact hnamed

/-- Aligned to the right, the second visual line is underlined from its left end on. -/
theorem underline_left_of_text : ¬ ∀ (line : LinePaint ℚ ℕ) (context : PaintContext ℚ ℕ),
    line.layout.Ordered → line.Named →
    line.wrapBoundaries.Pairwise (fun a b => a.lt b = true) →
    (line.decorationRuns.map DecorationRun.len).sum = line.layout.len →
    0 < line.lineHeight →
    (∀ glyph ∈ line.layout.glyphs, glyph.x < line.layout.width ∧ glyph.index < line.layout.len) →
    ∃ steps painted backgrounds, line.glyphSteps context.maxGlyphSize = .ok steps ∧
      line.paintLine context = .ok painted ∧
      line.paintLineBackground context = .ok backgrounds ∧
      line.DecorationsUnderlie steps painted backgrounds := by
  intro h
  obtain ⟨steps, painted, backgrounds, hsteps, hpainted, _, hunderlie⟩ :=
    h (underlined .right) wideContext LineLayout.twoGlyphs_ordered (underlined_named .right)
      (List.pairwise_singleton _ _) rfl (by decide +kernel) (by decide +kernel)
  have horigins : ((underlined .right).glyphSteps wideContext.maxGlyphSize).toOption.map
      (fun steps => steps.map GlyphStep.origin) = some [⟨20, 0⟩, ⟨20, 10⟩] := by
    decide +kernel
  have hstrokes : ((underlined .right).paintLine wideContext).toOption.map
      PaintedLine.underlines =
        some [⟨⟨20, 2309 / 250⟩, 10, ⟨1, some 0, false⟩⟩,
          ⟨⟨0, 4809 / 250⟩, 30, ⟨1, some 0, false⟩⟩] := by
    decide +kernel
  rw [hsteps] at horigins
  rw [hpainted] at hstrokes
  have horigins' : steps.map GlyphStep.origin = [⟨20, 0⟩, ⟨20, 10⟩] := Option.some_inj.1 horigins
  have hunderlines := Option.some_inj.1 hstrokes
  -- the start of the second stroke is covered, and no glyph is painted there
  have hcovered : ∃ stroke ∈ painted.underlines,
      stroke.Covers (4809 / 250) ⟨1, some 0, false⟩ 0 := by
    refine ⟨⟨⟨0, 4809 / 250⟩, 30, ⟨1, some 0, false⟩⟩, ?_, rfl, rfl, le_refl _, by decide +kernel⟩
    rw [hunderlines]
    simp
  obtain ⟨front, step, rest, heq, _, _, hle, _⟩ := (hunderlie.underlines.1 _ _ _).1 hcovered
  have hmem : step.origin ∈ steps.map GlyphStep.origin :=
    List.mem_map_of_mem (by rw [heq]; simp)
  rw [horigins'] at hmem
  have hx : ∀ origin ∈ [(⟨20, 0⟩ : Point ℚ), ⟨20, 10⟩], ¬ origin.x ≤ 0 := by decide +kernel
  exact hx _ hmem hle

theorem decorations_underlie_iff_underlined :
    ∃ steps painted backgrounds,
      (underlined .left).glyphSteps wideContext.maxGlyphSize = .ok steps ∧
      (underlined .left).paintLine wideContext = .ok painted ∧
      (underlined .left).paintLineBackground wideContext = .ok backgrounds ∧
      ((underlined .left).DecorationsFit
          ((underlined .left).lastHalfMax wideContext.maxGlyphSize) steps →
        (underlined .left).DecorationsUnderlie steps painted backgrounds) ∧
      (0 < (underlined .left).lineHeight →
        (∀ glyph ∈ (underlined .left).layout.glyphs,
          glyph.x < (underlined .left).layout.width) →
        (underlined .left).DecorationsUnderlie steps painted backgrounds →
        (underlined .left).DecorationsFit
          ((underlined .left).lastHalfMax wideContext.maxGlyphSize) steps) :=
  decorations_underlie_iff (underlined .left) LineLayout.twoGlyphs_ordered (underlined_named .left)
    wideContext

end LinePaint

end Gpui
