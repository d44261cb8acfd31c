import Gpui.Text.CaretSpec
import Gpui.Text.PaintLine

/-! # The glyphs of a painted line

    What the loop that paints a line does at its glyphs does not depend on what is drawn:
    the steps of the loop say where each glyph is painted, and which decoration run begins
    there.  One step follows another along a visual line or down to the next one, and the run
    in force at a glyph is the one that covers its index. -/

namespace Gpui

open List

open Exec (ok_bind bind_eq_ok)

/-- A glyph as the wrapping sees it. -/
def RunGlyph.glyphAt {X : Type} (glyph : RunGlyph X) : LineLayout.GlyphAt X :=
  ⟨glyph.boundary, glyph.glyph.index, glyph.glyph.x⟩

def GlyphStep.glyphAt {X C : Type} (step : GlyphStep X C) : LineLayout.GlyphAt X :=
  ⟨step.boundary, step.index, step.x⟩

theorem LineLayout.runGlyphs_map {X : Type} (layout : LineLayout X) :
    layout.runGlyphs.map RunGlyph.glyphAt = layout.glyphs := by
  unfold runGlyphs glyphs
  rw [map_flatMap]
  simp only [map_map]
  rfl

namespace LinePaint

variable {X C S : Type} [Field X] {line : LinePaint X C}

/-! ### Section 1: Steps -/

/-- The steps of the loop over some glyphs, and the cursor behind them. -/
def steps (line : LinePaint X C) (maxGlyphSize : Nat → X → Size X) :
    GlyphCursor X C → List (RunGlyph X) → Run (List (GlyphStep X C) × GlyphCursor X C)
  | cursor, [] => .ok ([], cursor)
  | cursor, glyph :: rest => do
      let (step, cursor) ← line.next maxGlyphSize cursor glyph
      let (steps, last) ← line.steps maxGlyphSize cursor rest
      .ok (step :: steps, last)

/-- Where the glyphs of the line are painted. -/
def glyphSteps (line : LinePaint X C) (maxGlyphSize : Nat → X → Size X) :
    Run (List (GlyphStep X C)) := do
  let cursor ← line.startCursor
  let (steps, _) ← line.steps maxGlyphSize cursor line.layout.runGlyphs
  .ok steps

/-- The boundaries are glyphs of the layout. -/
def Named (line : LinePaint X C) : Prop :=
  ∀ boundary ∈ line.wrapBoundaries, ∃ glyph ∈ line.layout.glyphs, glyph.boundary = boundary

/-- What a step does: the glyph stands behind the one before it, or at the start of the next
    visual line. -/
structure Moves (line : LinePaint X C) (cursor : GlyphCursor X C) (glyph : RunGlyph X)
    (step : GlyphStep X C) (cursor' : GlyphCursor X C) : Prop where
  boundary : step.boundary = glyph.boundary
  index : step.index = glyph.glyph.index
  x : step.x = glyph.glyph.x
  endX : step.endX = cursor.glyphOrigin.x + (step.x - cursor.prevGlyphX)
  down : step.wrapped = true → step.origin.y = cursor.glyphOrigin.y + line.lineHeight
  along : step.wrapped = false → step.origin = ⟨step.endX, cursor.glyphOrigin.y⟩
  inRun : step.inRun = decide (step.index < cursor.runEnd)
  run : line.changeRun cursor step.index = (step.styleRun, cursor'.decorationRuns, cursor'.runEnd)
  wraps : cursor'.wraps ⊆ cursor.wraps
  origin : cursor'.glyphOrigin = step.origin
  prevX : cursor'.prevGlyphX = step.x
  firstX : cursor'.firstGlyphX =
    if step.boundary = ⟨0, 0⟩ then step.endX else cursor.firstGlyphX

omit [Field X] in
theorem Named.glyphAt_returns (h : line.Named) {boundary : WrapBoundary}
    (hmem : boundary ∈ line.wrapBoundaries) :
    ∃ shaped, line.layout.glyphAt boundary = .ok shaped := by
  obtain ⟨glyph, hglyph, rfl⟩ := h boundary hmem
  obtain ⟨shaped, hshaped, _⟩ := LineLayout.glyphAt_of_mem hglyph
  exact ⟨shaped, hshaped⟩

theorem Named.alignedOriginX_returns (h : line.Named) (lastGlyphX : X)
    {wraps : List WrapBoundary} (hwraps : wraps ⊆ line.wrapBoundaries) :
    ∃ x, line.alignedOriginX lastGlyphX wraps.head? = .ok x := by
  have hend : ∃ x, line.endOfLine wraps.head? = .ok x := by
    rcases wraps with _ | ⟨boundary, wraps⟩
    · exact ⟨line.layout.width, rfl⟩
    · obtain ⟨shaped, hshaped⟩ := h.glyphAt_returns (hwraps mem_cons_self)
      exact ⟨shaped.x, by rw [head?_cons, endOfLine, hshaped]; rfl⟩
  obtain ⟨x, hx⟩ := hend
  unfold alignedOriginX
  rw [hx]
  cases line.align with
  | left => exact ⟨_, rfl⟩
  | center => exact ⟨_, rfl⟩
  | right => exact ⟨_, rfl⟩

variable {cursor cursor' : GlyphCursor X C} {glyph : RunGlyph X} {step : GlyphStep X C}

theorem Named.next_returns (h : line.Named) (maxGlyphSize : Nat → X → Size X)
    (hwraps : cursor.wraps ⊆ line.wrapBoundaries) (glyph : RunGlyph X) :
    Exec.Returns (fun moved => line.Moves cursor glyph moved.1 moved.2)
      (line.next maxGlyphSize cursor glyph) := by
  have htail : cursor.wraps.tail ⊆ cursor.wraps := tail_subset cursor.wraps
  obtain ⟨x, hx⟩ := h.alignedOriginX_returns glyph.glyph.x (List.Subset.trans htail hwraps)
  unfold next wrapAt
  split
  · rw [hx]
    refine ⟨_, rfl, ?_⟩
    constructor <;> first | rfl | exact htail | simp
  · refine ⟨_, rfl, ?_⟩
    constructor <;> first | rfl | exact List.Subset.refl _ | simp

/-! ### Section 2: The run in force -/

/-- The decoration of a byte. -/
def decorationAt (line : LinePaint X C) (index : Nat) : Option (Decoration X C) :=
  (decorations line.decorationRuns)[index]?

/-- From an index on: up to an end, the bytes have one decoration, and then those of the runs
    that are left. -/
def Ahead (line : LinePaint X C) (runs : List (DecorationRun X C)) (runEnd index : Nat)
    (current : Option (Decoration X C)) : Prop :=
  ∀ i, index ≤ i →
    line.decorationAt i = if i < runEnd then current else (decorations runs)[i - runEnd]?

variable {runs : List (DecorationRun X C)} {prev : GlyphStep X C}

omit [Field X] in
/-- Runs that end up to an index are skipped. -/
theorem nextStyleRun_spec {index runEnd : Nat} (hend : runEnd ≤ index)
    {found : Option (DecorationRun X C)} {rest : List (DecorationRun X C)} {runEnd' : Nat}
    (h : nextStyleRun index runEnd runs = (found, rest, runEnd')) :
    (found.isSome = true ↔ index < runEnd') ∧ (found = none → rest = []) ∧
      ∀ i, index ≤ i → (decorations runs)[i - runEnd]? =
        if i < runEnd' then found.map DecorationRun.toDecoration
        else (decorations rest)[i - runEnd']? := by
  induction runs generalizing runEnd with
  | nil =>
    cases h
    refine ⟨by simpa using hend, fun _ => rfl, ?_⟩
    intro i hi
    rw [if_neg (by omega)]
  | cons run runs ih =>
    have hcons : ∀ i, runEnd ≤ i → (decorations (run :: runs))[i - runEnd]? =
        if i < runEnd + run.len then some run.toDecoration
        else (decorations runs)[i - (runEnd + run.len)]? := by
      intro i hi
      unfold decorations
      rw [RunLength.expand_cons, getElem?_append, length_replicate]
      by_cases hlt : i < runEnd + run.len
      · rw [if_pos (by omega), if_pos hlt, getElem?_replicate, if_pos (by omega)]
      · rw [if_neg (by omega), if_neg hlt, Nat.sub_sub]
    rw [nextStyleRun] at h
    split at h
    · next hlt =>
      cases h
      refine ⟨by simpa using hlt, fun hnone => (nomatch hnone), ?_⟩
      intro i hi
      exact hcons i (by omega)
    · next hge =>
      obtain ⟨hsome, hnil, hrest⟩ := ih (by omega) h
      refine ⟨hsome, hnil, ?_⟩
      intro i hi
      rw [hcons i (by omega), if_neg (by omega)]
      exact hrest i hi

omit [Field X] in
/-- The run in force at the next glyph. -/
theorem Ahead.changeRun {lo index : Nat} {current : Option (Decoration X C)}
    (h : line.Ahead cursor.decorationRuns cursor.runEnd lo current) (hlo : lo ≤ index)
    {styleRun : Option (Option (DecorationRun X C))} {runEnd : Nat}
    (hrun : line.changeRun cursor index = (styleRun, runs, runEnd)) :
    line.Ahead runs runEnd index (line.decorationAt index) ∧
      (styleRun.isNone = true ↔ index < cursor.runEnd) ∧
      (styleRun = none → line.decorationAt index = current) ∧
      ∀ run, styleRun = some run →
        line.decorationAt index = run.map DecorationRun.toDecoration := by
  unfold LinePaint.changeRun at hrun
  split at hrun
  · next hle =>
    generalize hnext : nextStyleRun index cursor.runEnd cursor.decorationRuns = next at hrun
    obtain ⟨found, rest, runEnd'⟩ := next
    obtain ⟨hsome, hnil, hrest⟩ := nextStyleRun_spec hle hnext
    -- the bytes from the index on are those of the runs that were left
    have hbytes : ∀ i, index ≤ i → line.decorationAt i =
        if i < runEnd' then found.map DecorationRun.toDecoration
        else (decorations rest)[i - runEnd']? := by
      intro i hi
      rw [h i (by omega), if_neg (by omega), hrest i hi]
    rcases found with _ | run
    · cases hrun
      obtain rfl := hnil rfl
      have hnone : ∀ i, index ≤ i → line.decorationAt i = none := by
        intro i hi
        rw [hbytes i hi]
        simp [decorations]
      refine ⟨?_, by simpa using hle, fun hsome => (nomatch hsome), ?_⟩
      · intro i hi
        rw [hnone i hi, hnone index (le_refl _)]
        simp [decorations]
      · intro run heq
        cases heq
        exact hnone index (le_refl _)
    · cases hrun
      have hlt : index < runEnd := hsome.1 rfl
      have hindex : line.decorationAt index = some run.toDecoration := by
        rw [hbytes index (le_refl _), if_pos hlt]
        rfl
      refine ⟨?_, by simpa using hle, fun hsome => (nomatch hsome), ?_⟩
      · intro i hi
        rw [hbytes i hi, hindex]
        rfl
      · intro run' heq
        cases heq
        exact hindex
  · next hlt =>
    cases hrun
    have hindex : line.decorationAt index = current := by
      rw [h index hlo, if_pos (by omega)]
    refine ⟨?_, by simpa using hlt, fun _ => hindex, fun run heq => (nomatch heq)⟩
    intro i hi
    rw [hindex]
    exact h i (by omega)

/-! ### Section 3: One step after another -/

/-- The run in force at a step, after one with a decoration. -/
structure Enters (line : LinePaint X C) (before : Option (Decoration X C))
    (step : GlyphStep X C) : Prop where
  inRun : step.inRun = step.styleRun.isNone
  carries : step.styleRun = none → line.decorationAt step.index = before
  changes : ∀ run, step.styleRun = some run →
    line.decorationAt step.index = run.map DecorationRun.toDecoration

/-- The cursor stands behind a step. -/
structure Behind (line : LinePaint X C) (prev : GlyphStep X C) (cursor : GlyphCursor X C) :
    Prop where
  wraps : cursor.wraps ⊆ line.wrapBoundaries
  origin : cursor.glyphOrigin = prev.origin
  prevX : cursor.prevGlyphX = prev.x
  ahead : line.Ahead cursor.decorationRuns cursor.runEnd prev.index (line.decorationAt prev.index)

/-- Where the first glyph is painted, or the line if it has none. -/
def firstGlyphX (x : X) (steps : List (GlyphStep X C)) : X :=
  steps.foldl (fun x step => if step.boundary = ⟨0, 0⟩ then step.endX else x) x

theorem Moves.enters {lo : Nat} {before : Option (Decoration X C)}
    (h : line.Moves cursor glyph step cursor')
    (hahead : line.Ahead cursor.decorationRuns cursor.runEnd lo before) (hlo : lo ≤ step.index) :
    line.Enters before step ∧
      line.Ahead cursor'.decorationRuns cursor'.runEnd step.index
        (line.decorationAt step.index) := by
  obtain ⟨hnext, hnone, hcarries, hchanges⟩ := hahead.changeRun hlo h.run
  refine ⟨⟨?_, hcarries, hchanges⟩, hnext⟩
  rw [h.inRun, Bool.eq_iff_iff, decide_eq_true_iff, hnone]

/-- The cursor goes on behind the step. -/
theorem Moves.behind (h : line.Moves cursor glyph step cursor')
    (hwraps : cursor.wraps ⊆ line.wrapBoundaries)
    (hahead : line.Ahead cursor'.decorationRuns cursor'.runEnd step.index
      (line.decorationAt step.index)) : line.Behind step cursor' where
  wraps := List.Subset.trans h.wraps hwraps
  origin := h.origin
  prevX := h.prevX
  ahead := hahead

variable [LinearOrder X] {glyphs : List (RunGlyph X)}

/-- A glyph follows another. -/
structure Follows (line : LinePaint X C) (prev step : GlyphStep X C) : Prop where
  x_lt : prev.x < step.x
  endX : step.endX = prev.origin.x + (step.x - prev.x)
  down : step.wrapped = true → step.origin.y = prev.origin.y + line.lineHeight
  along : step.wrapped = false → step.origin = ⟨step.endX, prev.origin.y⟩
  enters : line.Enters (line.decorationAt prev.index) step

theorem Behind.follows (h : line.Behind prev cursor)
    (hmoves : line.Moves cursor glyph step cursor') (hx : prev.x < step.x)
    (henters : line.Enters (line.decorationAt prev.index) step) : line.Follows prev step where
  x_lt := hx
  endX := by rw [hmoves.endX, h.origin, h.prevX]
  down := fun hwrapped => by rw [hmoves.down hwrapped, h.origin]
  along := fun hwrapped => by rw [hmoves.along hwrapped, h.origin]
  enters := henters

/-- The steps over the glyphs that are left. -/
theorem Named.steps_returns (h : line.Named) (maxGlyphSize : Nat → X → Size X)
    (hbehind : line.Behind prev cursor)
    (hx : ((prev.x :: glyphs.map (fun glyph => glyph.glyph.x))).Pairwise (· < ·))
    (hindex : (prev.index :: glyphs.map (fun glyph => glyph.glyph.index)).Pairwise (· < ·)) :
    Exec.Returns (fun result =>
        (prev :: result.1).IsChain line.Follows ∧
        result.1.map GlyphStep.glyphAt = glyphs.map RunGlyph.glyphAt ∧
        result.2.firstGlyphX = firstGlyphX cursor.firstGlyphX result.1)
      (line.steps maxGlyphSize cursor glyphs) := by
  -- induction on the glyphs: the cursor stands behind the step before
  induction glyphs generalizing prev cursor with
  | nil => exact ⟨_, rfl, isChain_singleton prev, rfl, rfl⟩
  | cons glyph rest ih =>
    obtain ⟨⟨step, cursor'⟩, hnext, hmoves⟩ :=
      h.next_returns maxGlyphSize hbehind.wraps glyph
    obtain ⟨hxs, hrest⟩ := pairwise_cons.1 hx
    obtain ⟨hindices, hrestIndex⟩ := pairwise_cons.1 hindex
    have hstepX : step.x = glyph.glyph.x := hmoves.x
    have hstepIndex : step.index = glyph.glyph.index := hmoves.index
    have hlt : prev.x < step.x := by
      rw [hstepX]
      exact hxs _ (by simp)
    have hlo : prev.index ≤ step.index := by
      rw [hstepIndex]
      exact (hindices _ (by simp)).le
    obtain ⟨henters, hahead⟩ := hmoves.enters hbehind.ahead hlo
    have hbehind' := hmoves.behind hbehind.wraps hahead
    rw [map_cons, ← hstepX] at hrest
    rw [map_cons, ← hstepIndex] at hrestIndex
    obtain ⟨⟨steps, last⟩, hsteps, hchain, hglyphs, hfirst⟩ := ih hbehind' hrest hrestIndex
    refine ⟨(step :: steps, last), ?_, ?_, ?_, ?_⟩
    · rw [LinePaint.steps, hnext]
      simp only [ok_bind]
      rw [hsteps]
      rfl
    · exact isChain_cons_cons.2 ⟨hbehind.follows hmoves hlt henters, hchain⟩
    · rw [map_cons, map_cons, hglyphs, GlyphStep.glyphAt, RunGlyph.glyphAt,
        hmoves.boundary, hstepX, hstepIndex]
    · rw [hfirst, hmoves.firstX]
      rfl

/-- The steps of a line: they are those of its glyphs, and a run is looked for at the first. -/
structure Walk (line : LinePaint X C) (steps : List (GlyphStep X C)) : Prop where
  glyphs : steps.map GlyphStep.glyphAt = line.layout.glyphs
  chain : steps.IsChain line.Follows
  first : ∀ step, steps.head? = some step → step.styleRun.isSome = true ∧ line.Enters none step

/-- **The loop visits every glyph.** -/
theorem Named.walk (h : line.Named) (hordered : line.layout.Ordered)
    (maxGlyphSize : Nat → X → Size X) :
    ∃ cursor steps last, line.startCursor = .ok cursor ∧
      line.steps maxGlyphSize cursor line.layout.runGlyphs = .ok (steps, last) ∧
      line.Walk steps ∧ last.firstGlyphX = firstGlyphX line.origin.x steps := by
  obtain ⟨x, hx⟩ := h.alignedOriginX_returns 0 (List.Subset.refl line.wrapBoundaries)
  have hglyphs := line.layout.runGlyphs_map
  have hpositions : (line.layout.runGlyphs.map (fun glyph => glyph.glyph.x)).Pairwise
      (· < ·) := by
    have hpairwise := hordered.positions
    rw [← hglyphs, pairwise_map] at hpairwise
    exact pairwise_map.2 hpairwise
  have hindices : (line.layout.runGlyphs.map (fun glyph => glyph.glyph.index)).Pairwise
      (· < ·) := by
    have hpairwise := hordered.indices
    rw [← hglyphs, pairwise_map] at hpairwise
    exact pairwise_map.2 hpairwise
  obtain ⟨cursor, hcursor, hwraps, hruns, hend, hfirst⟩ : ∃ cursor, line.startCursor = .ok cursor ∧
      cursor.wraps = line.wrapBoundaries ∧ cursor.decorationRuns = line.decorationRuns ∧
      cursor.runEnd = 0 ∧ cursor.firstGlyphX = line.origin.x := by
    unfold startCursor
    rw [hx]
    exact ⟨_, rfl, rfl, rfl, rfl, rfl⟩
  have hsubset : cursor.wraps ⊆ line.wrapBoundaries := by
    rw [hwraps]
    exact List.Subset.refl _
  refine ⟨cursor, ?_⟩
  generalize line.layout.runGlyphs = glyphs at hglyphs hpositions hindices
  rcases glyphs with _ | ⟨glyph, rest⟩
  · exact ⟨[], cursor, hcursor, rfl, ⟨hglyphs, isChain_nil, fun step heq => (nomatch heq)⟩,
      hfirst⟩
  · obtain ⟨⟨step, cursor'⟩, hnext, hmoves⟩ :=
      h.next_returns maxGlyphSize hsubset glyph
    have hahead : line.Ahead cursor.decorationRuns cursor.runEnd 0 none := by
      rw [hruns, hend]
      intro i _
      rfl
    obtain ⟨henters, hahead'⟩ := hmoves.enters hahead (Nat.zero_le _)
    have hsome : step.styleRun.isSome = true := by
      have hinRun := henters.inRun
      rw [hmoves.inRun, hend, decide_eq_false (Nat.not_lt_zero _)] at hinRun
      exact Option.isNone_eq_false_iff.1 hinRun.symm
    have hstepX : step.x = glyph.glyph.x := hmoves.x
    have hstepIndex : step.index = glyph.glyph.index := hmoves.index
    rw [map_cons, ← hstepX] at hpositions
    rw [map_cons, ← hstepIndex] at hindices
    obtain ⟨⟨steps, last⟩, hsteps, hchain, hrest, hlast⟩ :=
      h.steps_returns maxGlyphSize (hmoves.behind hsubset hahead') hpositions hindices
    refine ⟨step :: steps, last, hcursor, ?_, ⟨?_, hchain, ?_⟩, ?_⟩
    · rw [LinePaint.steps, hnext]
      simp only [ok_bind]
      rw [hsteps]
      rfl
    · rw [map_cons, hrest, ← hglyphs, map_cons, GlyphStep.glyphAt, RunGlyph.glyphAt,
        hmoves.boundary, hstepX, hstepIndex]
    · intro first heq
      cases heq
      exact ⟨hsome, henters⟩
    · rw [hlast, hmoves.firstX, hfirst]
      rfl

/-! ### Section 4: What is painted along the steps -/

section

variable [DecidableEq C] {context : PaintContext X C}

/-- The strokes of a kind of decoration along some steps. -/
def strokes (line : LinePaint X C) (kind : DecorationKind X C S) (steps : List (GlyphStep X C))
    (lastLineEndX halfMax : X) : List (Stroke X S) :=
  (steps.foldl (Decorating.next line kind) .start).finish lastLineEndX halfMax

variable {steps : List (GlyphStep X C)} {last : GlyphCursor X C}

/-- The loop of `paint_line` goes along the steps. -/
theorem foldlM_paintNext (painting : Painting X C)
    (h : line.steps context.maxGlyphSize painting.cursor glyphs = .ok (steps, last)) :
    Exec.Returns (fun painted => painted.cursor = last ∧
        painted.underline = steps.foldl (Decorating.next line line.underline) painting.underline ∧
        painted.strikethrough =
          steps.foldl (Decorating.next line line.strikethrough) painting.strikethrough)
      (glyphs.foldlM (line.paintNext context) painting) := by
  induction glyphs generalizing painting steps with
  | nil =>
    cases h
    exact ⟨painting, rfl, rfl, rfl, rfl⟩
  | cons glyph rest ih =>
    obtain ⟨⟨step, cursor⟩, hnext, hrest⟩ := bind_eq_ok.1 h
    obtain ⟨⟨steps, last'⟩, hsteps, heq⟩ := bind_eq_ok.1 hrest
    cases heq
    rw [foldlM_cons]
    unfold paintNext
    rw [hnext]
    exact ih _ hsteps

/-- The loop of `paint_line_background` goes along the same steps. -/
theorem foldlM_paintBackgroundNext (painting : GlyphCursor X C × Decorating X C)
    (h : line.steps context.maxGlyphSize painting.1 glyphs = .ok (steps, last)) :
    glyphs.foldlM (line.paintBackgroundNext context) painting =
      .ok (last, steps.foldl (Decorating.next line background) painting.2) := by
  induction glyphs generalizing painting steps with
  | nil =>
    cases h
    rfl
  | cons glyph rest ih =>
    obtain ⟨⟨step, cursor⟩, hnext, hrest⟩ := bind_eq_ok.1 h
    obtain ⟨⟨steps, last'⟩, hsteps, heq⟩ := bind_eq_ok.1 hrest
    cases heq
    rw [foldlM_cons]
    unfold paintBackgroundNext
    rw [hnext]
    exact ih (cursor, painting.2.next line background step) hsteps

omit [LinearOrder X] [DecidableEq C] in
theorem Named.lastLineEndX_returns (h : line.Named) (startX : X) :
    ∃ endX, line.lastLineEndX startX = .ok endX := by
  unfold lastLineEndX
  generalize hlast : line.wrapBoundaries.getLast? = last
  rcases last with _ | boundary
  · exact ⟨_, rfl⟩
  · obtain ⟨shaped, hshaped⟩ := h.glyphAt_returns (mem_of_getLast? hlast)
    exact ⟨startX + line.layout.width - shaped.x, by simp only [hshaped]; rfl⟩

/-- **What is painted are the strokes along the steps.** -/
theorem Named.paint_returns (h : line.Named) (hordered : line.layout.Ordered)
    (context : PaintContext X C) :
    ∃ steps endX backgroundEndX painted,
      line.glyphSteps context.maxGlyphSize = .ok steps ∧ line.Walk steps ∧
      line.lastLineEndX (firstGlyphX line.origin.x steps) = .ok endX ∧
      line.lastLineEndX line.origin.x = .ok backgroundEndX ∧
      line.paintLine context = .ok painted ∧
      painted.underlines =
        line.strokes line.underline steps endX (line.lastHalfMax context.maxGlyphSize) ∧
      painted.strikethroughs =
        line.strokes line.strikethrough steps endX (line.lastHalfMax context.maxGlyphSize) ∧
      line.paintLineBackground context =
        .ok (line.strokes background steps backgroundEndX
          (line.lastHalfMax context.maxGlyphSize)) := by
  obtain ⟨cursor, steps, last, hcursor, hsteps, hwalk, hfirst⟩ :=
    h.walk hordered context.maxGlyphSize
  obtain ⟨endX, hendX⟩ := h.lastLineEndX_returns (firstGlyphX line.origin.x steps)
  obtain ⟨backgroundEndX, hbackgroundEndX⟩ := h.lastLineEndX_returns line.origin.x
  obtain ⟨painting, hpainting, hlast, hunderline, hstrikethrough⟩ :=
    foldlM_paintNext ⟨cursor, context.black, .start, .start, []⟩ hsteps
  have hglyphSteps : line.glyphSteps context.maxGlyphSize = .ok steps := by
    unfold glyphSteps
    rw [hcursor]
    simp only [ok_bind]
    rw [hsteps]
    rfl
  refine ⟨steps, endX, backgroundEndX,
    ⟨painting.underline.finish endX (line.lastHalfMax context.maxGlyphSize),
      painting.strikethrough.finish endX (line.lastHalfMax context.maxGlyphSize),
      painting.glyphs⟩, hglyphSteps, hwalk, hendX, hbackgroundEndX, ?_, ?_, ?_, ?_⟩
  · unfold paintLine
    rw [hcursor]
    simp only [ok_bind]
    rw [hpainting]
    simp only [ok_bind]
    rw [hlast, hfirst, hendX]
    rfl
  · rw [strokes, hunderline]
  · rw [strokes, hstrikethrough]
  · unfold paintLineBackground
    rw [hcursor]
    simp only [ok_bind]
    rw [foldlM_paintBackgroundNext (cursor, .start) hsteps]
    rw [hbackgroundEndX]
    rfl

end

end LinePaint

end Gpui
