import Gpui.Text.LineWrapper

/-! # The layout of a line

    A line that was shaped, and where it is wrapped.  Positions are in an ordered
    field `X`. -/

namespace Gpui

open List

/-- The character of a text at a byte index: `text[index..].chars().next().unwrap()`. -/
def charAt : List Char → Nat → Run Char
  | [],     0         => .error .unwrapNone
  | [],     _ + 1     => .error .indexOutOfRange
  | c :: _, 0         => .ok c
  | c :: text, n + 1  =>
      if n + 1 < c.utf8Size then .error .indexOutOfRange else charAt text (n + 1 - c.utf8Size)

structure FontRun where
  len : Nat
  fontId : Nat
deriving DecidableEq

structure ShapedGlyph (X : Type) where
  id : Nat
  x : X
  y : X
  index : Nat
  isEmoji : Bool

structure ShapedRun (X : Type) where
  fontId : Nat
  glyphs : List (ShapedGlyph X)

structure LineLayout (X : Type) where
  fontSize : X
  width : X
  ascent : X
  descent : X
  runs : List (ShapedRun X)
  len : Nat

/-- A boundary at which a line was wrapped. -/
structure WrapBoundary where
  runIx : Nat
  glyphIx : Nat
deriving DecidableEq

/-- The derived order: by run, then by glyph. -/
def WrapBoundary.lt (a b : WrapBoundary) : Bool :=
  a.runIx < b.runIx || a.runIx == b.runIx && a.glyphIx < b.glyphIx

namespace LineLayout

variable {X : Type} [Field X] [LinearOrder X]

/-! ## Wrap boundaries -/

/-- A glyph as the wrapping sees it. -/
structure GlyphAt (X : Type) where
  boundary : WrapBoundary
  index : Nat
  x : X

/-- The glyphs of all runs, in order. -/
def glyphs (layout : LineLayout X) : List (GlyphAt X) :=
  layout.runs.zipIdx.flatMap (fun (run, runIx) =>
    run.glyphs.zipIdx.map (fun (glyph, glyphIx) => ⟨⟨runIx, glyphIx⟩, glyph.index, glyph.x⟩))

/-- The variables of the loop of `compute_wrap_boundaries`. -/
structure Wrapping (X : Type) where
  boundaries : List WrapBoundary
  firstNonWhitespaceIx : Option WrapBoundary
  lastCandidateIx : Option WrapBoundary
  lastCandidateX : X
  lastBoundary : WrapBoundary
  lastBoundaryX : X
  prevCh : Char

def Wrapping.start : Wrapping X where
  boundaries := []
  firstNonWhitespaceIx := none
  lastCandidateIx := none
  lastCandidateX := 0
  lastBoundary := ⟨0, 0⟩
  lastBoundaryX := 0
  prevCh := '\x00'

/-- A glyph that a line may be broken before becomes the candidate. -/
def Wrapping.noteCandidate (w : Wrapping X) (glyph : GlyphAt X) (ch : Char) : Wrapping X :=
  let candidate :=
    if LineWrapper.isWordChar ch then
      w.prevCh == ' ' && ch != ' ' && w.firstNonWhitespaceIx.isSome
    else
      ch != ' ' && w.firstNonWhitespaceIx.isSome
  let w := if candidate then
      { w with lastCandidateIx := some glyph.boundary, lastCandidateX := glyph.x }
    else w
  if ch != ' ' && w.firstNonWhitespaceIx.isNone then
    { w with firstNonWhitespaceIx := some glyph.boundary }
  else w

/-- Breaks the line, at the candidate if there is one. -/
def Wrapping.breakLine (w : Wrapping X) (glyph : GlyphAt X) : Wrapping X :=
  match w.lastCandidateIx with
  | some candidate =>
      { w with
        boundaries := w.boundaries ++ [candidate]
        lastCandidateIx := none
        lastBoundary := candidate
        lastBoundaryX := w.lastCandidateX }
  | none =>
      { w with
        boundaries := w.boundaries ++ [glyph.boundary]
        lastBoundary := glyph.boundary
        lastBoundaryX := glyph.x }

/-- The number of boundaries is limited when `line_clamp` is used. -/
def atLimit (maxLines : Option Nat) (boundaries : List WrapBoundary) : Bool :=
  match maxLines with
  | some maxLines => maxLines - 1 ≤ boundaries.length
  | none          => false

/-- The start of the next glyph, or the width of the line.  Peeking at a glyph looks up
    its character, too. -/
def peekX (text : List Char) (width : X) : List (GlyphAt X) → Run X
  | []         => .ok width
  | glyph :: _ => do
      let _ ← charAt text glyph.index
      .ok glyph.x

/-- The loop of `compute_wrap_boundaries`. -/
def wrapGlyphs (text : List Char) (width wrapWidth : X) (maxLines : Option Nat) :
    Wrapping X → List (GlyphAt X) → Run (List WrapBoundary)
  | w, [] => .ok w.boundaries
  | w, glyph :: rest => do
      let ch ← charAt text glyph.index
      if ch == '\n' then
        wrapGlyphs text width wrapWidth maxLines w rest
      else
        let w := w.noteCandidate glyph ch
        let nextX ← peekX text width rest
        if wrapWidth < nextX - w.lastBoundaryX && w.lastBoundary.lt glyph.boundary then
          if atLimit maxLines w.boundaries then .ok w.boundaries
          else
            wrapGlyphs text width wrapWidth maxLines
              { w.breakLine glyph with prevCh := ch } rest
        else
          wrapGlyphs text width wrapWidth maxLines { w with prevCh := ch } rest

def computeWrapBoundaries (layout : LineLayout X) (text : List Char) (wrapWidth : X)
    (maxLines : Option Nat) : Run (List WrapBoundary) :=
  wrapGlyphs text layout.width wrapWidth maxLines Wrapping.start layout.glyphs

/-- How many of `n` boundaries are left under a limit; a limit of 0 is one of 1. -/
def allowedBoundaries (maxLines : Option Nat) (n : Nat) : Nat :=
  match maxLines with
  | some maxLines => min (maxLines - 1) n
  | none          => n

/-- The index of every glyph is that of a character of the text. -/
def IndexValid (text : List Char) (glyphs : List (GlyphAt X)) : Prop :=
  ∀ glyph ∈ glyphs, ∃ ch, charAt text glyph.index = .ok ch

section

omit [LinearOrder X] [Field X]

theorem boundaries_noteCandidate (w : Wrapping X) (glyph : GlyphAt X) (ch : Char) :
    (w.noteCandidate glyph ch).boundaries = w.boundaries := by
  unfold Wrapping.noteCandidate
  simp only [apply_ite Wrapping.boundaries, ite_self]

theorem boundaries_breakLine (w : Wrapping X) (glyph : GlyphAt X) :
    ∃ boundary, (w.breakLine glyph).boundaries = w.boundaries ++ [boundary] := by
  unfold Wrapping.breakLine
  cases w.lastCandidateIx with
  | some candidate => exact ⟨candidate, rfl⟩
  | none => exact ⟨glyph.boundary, rfl⟩

end

/-- A limit on the lines keeps the first boundaries of those found without it. -/
theorem wrapGlyphs_limit {text : List Char} {width wrapWidth : X} {glyphs : List (GlyphAt X)}
    (hvalid : IndexValid text glyphs) (w : Wrapping X) :
    ∃ full, wrapGlyphs text width wrapWidth none w glyphs = .ok full ∧
      w.boundaries <+: full ∧
      ∀ maxLines, w.boundaries.length ≤ maxLines - 1 →
        wrapGlyphs text width wrapWidth (some maxLines) w glyphs
          = .ok (full.take (maxLines - 1)) := by
  induction glyphs generalizing w with
  | nil =>
    refine ⟨w.boundaries, rfl, prefix_rfl, ?_⟩
    intro maxLines hle
    rw [take_of_length_le hle]
    rfl
  | cons glyph rest ih =>
    have hrest : IndexValid text rest := fun g hg => hvalid g (mem_cons_of_mem glyph hg)
    obtain ⟨ch, hch⟩ := hvalid glyph mem_cons_self
    -- the glyph after this one is looked at under every limit
    have hnext : ∃ nextX, peekX text width rest = .ok nextX := by
      cases rest with
      | nil => exact ⟨width, rfl⟩
      | cons next _ =>
        obtain ⟨nextCh, hnextCh⟩ := hrest next mem_cons_self
        exact ⟨next.x, by simp [peekX, hnextCh]⟩
    obtain ⟨nextX, hnextX⟩ := hnext
    unfold wrapGlyphs
    simp only [hch, Exec.ok_bind]
    by_cases hnewline : (ch == '\n') = true
    · simp only [hnewline, if_true]
      exact ih hrest w
    · simp only [hnewline, hnextX, Exec.ok_bind]
      have hnote := boundaries_noteCandidate w glyph ch
      by_cases hbreak : (wrapWidth < nextX - (w.noteCandidate glyph ch).lastBoundaryX &&
          (w.noteCandidate glyph ch).lastBoundary.lt glyph.boundary) = true
      · obtain ⟨boundary, hboundary⟩ := boundaries_breakLine (w.noteCandidate glyph ch) glyph
        rw [hnote] at hboundary
        obtain ⟨full, hfull, hfront, hlimit⟩ :=
          ih hrest { (w.noteCandidate glyph ch).breakLine glyph with prevCh := ch }
        rw [hboundary] at hfront hlimit
        have hw : w.boundaries <+: full := (prefix_append _ _).trans hfront
        refine ⟨full, ?_, hw, ?_⟩
        · simpa [hbreak, atLimit] using hfull
        · intro maxLines hle
          by_cases hat : maxLines - 1 ≤ w.boundaries.length
          · -- the limit is reached here, and the loop is left
            have htake : full.take (maxLines - 1) = w.boundaries := by
              have heq : maxLines - 1 = w.boundaries.length := by omega
              rw [heq]
              exact (prefix_iff_eq_take.1 hw).symm
            simp [hbreak, atLimit, hnote, hat, htake]
          · have := hlimit maxLines (by simp; omega)
            simpa [hbreak, atLimit, hnote, hat] using this
      · obtain ⟨full, hfull, hfront, hlimit⟩ :=
          ih hrest { w.noteCandidate glyph ch with prevCh := ch }
        rw [hnote] at hfront hlimit
        refine ⟨full, ?_, hfront, ?_⟩
        · simpa [hbreak] using hfull
        · intro maxLines hle
          simpa [hbreak] using hlimit maxLines hle

theorem computeWrapBoundaries_limit {layout : LineLayout X} {text : List Char} (wrapWidth : X)
    (hvalid : IndexValid text layout.glyphs) :
    ∃ full : List WrapBoundary, ∀ maxLines,
      layout.computeWrapBoundaries text wrapWidth maxLines
        = .ok (full.take (allowedBoundaries maxLines full.length)) := by
  obtain ⟨full, hfull, _, hlimit⟩ :=
    @wrapGlyphs_limit _ _ _ _ layout.width wrapWidth _ hvalid Wrapping.start
  refine ⟨full, ?_⟩
  intro maxLines
  cases maxLines with
  | none =>
    rw [allowedBoundaries, take_length]
    exact hfull
  | some maxLines =>
    unfold computeWrapBoundaries allowedBoundaries
    rw [hlimit maxLines (Nat.zero_le _), ← take_eq_take_min]

/-! ## Forced widths -/

/-- The variables of the loop of `apply_force_width_to_layout`; `none` is negative
    infinity. -/
structure Forcing (X : Type) where
  glyphPos : Nat
  lastBaseShapedX : Option X
  lastBaseActualX : X

/-- The position of one glyph. -/
def forceGlyph (forceWidth : X) (st : Forcing X) (glyph : ShapedGlyph X) :
    Forcing X × ShapedGlyph X :=
  let shapedX := glyph.x
  let isBase := match st.lastBaseShapedX with
    | none   => true
    | some x => x + forceWidth / 2 < shapedX
  if isBase then
    let forcedX := st.glyphPos * forceWidth
    let x := if 1 < max (shapedX - forcedX) (forcedX - shapedX) then forcedX else shapedX
    (⟨st.glyphPos + 1, some shapedX, x⟩, { glyph with x := x })
  else
    (st, { glyph with
      x := st.lastBaseActualX + (shapedX - st.lastBaseShapedX.getD 0) })

def forceGlyphs (forceWidth : X) : Forcing X → List (ShapedGlyph X) →
    Forcing X × List (ShapedGlyph X)
  | st, [] => (st, [])
  | st, glyph :: rest =>
      let (st, glyph) := forceGlyph forceWidth st glyph
      let (st, rest) := forceGlyphs forceWidth st rest
      (st, glyph :: rest)

def forceRuns (forceWidth : X) : Forcing X → List (ShapedRun X) → List (ShapedRun X)
  | _, [] => []
  | st, run :: rest =>
      let (st, glyphs) := forceGlyphs forceWidth st run.glyphs
      { run with glyphs := glyphs } :: forceRuns forceWidth st rest

def applyForceWidthToLayout (layout : LineLayout X) (forceWidth : X) : LineLayout X :=
  { layout with runs := forceRuns forceWidth ⟨0, none, 0⟩ layout.runs }

end LineLayout

end Gpui

/-! # The glyphs of a line, in order

    The glyphs of all runs are sorted by run and place, so that orders of them that agree
    with the order of the line agree with each other. -/

namespace Gpui

namespace WrapBoundary

theorem lt_iff {a b : WrapBoundary} :
    a.lt b = true ↔ a.runIx < b.runIx ∨ a.runIx = b.runIx ∧ a.glyphIx < b.glyphIx := by
  simp [lt]

theorem lt_asymm {a b : WrapBoundary} (h : a.lt b = true) : ¬ b.lt a = true := by
  rw [lt_iff] at h ⊢
  omega

theorem lt_irrefl (a : WrapBoundary) : ¬ a.lt a = true := by
  intro h
  exact lt_asymm h h

theorem lt_trans {a b c : WrapBoundary} (hab : a.lt b = true) (hbc : b.lt c = true) :
    a.lt c = true := by
  rw [lt_iff] at hab hbc ⊢
  omega

end WrapBoundary

/-- Two orders that both agree with a list agree on its elements. -/
theorem pairwise_rel {α : Type} {R S : α → α → Prop} {xs : List α} (hR : xs.Pairwise R)
    (hS : xs.Pairwise S) (hasymm : ∀ a b, R a b → ¬ R b a) {a b : α} (ha : a ∈ xs)
    (hb : b ∈ xs) (h : R a b) : S a b := by
  obtain ⟨i, hi, rfl⟩ := List.mem_iff_getElem.1 ha
  obtain ⟨j, hj, rfl⟩ := List.mem_iff_getElem.1 hb
  obtain hlt | heq | hgt := Nat.lt_trichotomy i j
  · exact List.pairwise_iff_getElem.1 hS i j hi hj hlt
  · subst heq
    exact absurd h (hasymm _ _ h)
  · exact absurd (List.pairwise_iff_getElem.1 hR j i hj hi hgt) (hasymm _ _ h)

theorem pairwise_zipIdx {α : Type} (xs : List α) :
    xs.zipIdx.Pairwise (fun a b => a.2 < b.2) := by
  rw [← List.pairwise_map (R := (· < ·)), List.zipIdx_map_snd]
  exact List.pairwise_lt_range'

namespace LineLayout

variable {X : Type}

theorem glyphs_sorted (layout : LineLayout X) :
    layout.glyphs.Pairwise (fun a b => a.boundary.lt b.boundary = true) := by
  refine List.pairwise_flatMap.2 ⟨?_, ?_⟩
  · -- in one run the places grow
    intro run _
    refine List.pairwise_map.2 ((pairwise_zipIdx _).imp ?_)
    intro a b hlt
    exact WrapBoundary.lt_iff.2 (.inr ⟨rfl, hlt⟩)
  · refine (pairwise_zipIdx _).imp ?_
    intro run run' hlt a ha b hb
    obtain ⟨_, _, rfl⟩ := List.mem_map.1 ha
    obtain ⟨_, _, rfl⟩ := List.mem_map.1 hb
    exact WrapBoundary.lt_iff.2 (.inl hlt)

theorem glyphs_boundary_inj {layout : LineLayout X} {a b : GlyphAt X} (ha : a ∈ layout.glyphs)
    (hb : b ∈ layout.glyphs) (h : a.boundary = b.boundary) : a = b := by
  obtain ⟨i, hi, rfl⟩ := List.mem_iff_getElem.1 ha
  obtain ⟨j, hj, rfl⟩ := List.mem_iff_getElem.1 hb
  have hsorted := List.pairwise_iff_getElem.1 layout.glyphs_sorted
  obtain hlt | heq | hgt := Nat.lt_trichotomy i j
  · have := hsorted i j hi hj hlt
    rw [h] at this
    exact absurd this (WrapBoundary.lt_irrefl _)
  · subst heq
    rfl
  · have := hsorted j i hj hi hgt
    rw [h] at this
    exact absurd this (WrapBoundary.lt_irrefl _)

end LineLayout

end Gpui
