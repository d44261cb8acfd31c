import Gpui.Lib.IntervalCover
import Gpui.Text.PaintLineStretches

/-! # Decorations under their text

    A decoration should cover the glyphs whose run has it, where they are painted, and nothing
    else.  The stretches of a line are those glyphs, so that this is a property of each
    stroke: it has to start and to end with its stretch. -/

namespace Gpui

open List

/-- A stroke covers a place. -/
def Stroke.Covers {X S : Type} [Field X] [LinearOrder X] (stroke : Stroke X S) (y : X)
    (style : S) (x : X) : Prop :=
  stroke.origin.y = y ∧ stroke.style = style ∧ stroke.origin.x ≤ x ∧
    x < stroke.origin.x + stroke.width

/-- A stretch is meant for a place. -/
def Stretch.Meant {X S : Type} [LinearOrder X] (stretch : Stretch X S) (y : X) (style : S)
    (x : X) : Prop :=
  stretch.y = y ∧ stretch.style = style ∧ stretch.start ≤ x ∧ x < stretch.stop

/-- What is open reaches over a place, up to a position. -/
def OpenStroke.Reaches {X S : Type} [LinearOrder X] (current : Option (OpenStroke X S))
    (stop y : X) (style : S) (x : X) : Prop :=
  ∃ open', current = some open' ∧ open'.y = y ∧ open'.style = style ∧ open'.start ≤ x ∧ x < stop

namespace LinePaint

open IntervalCover (Piece)
open OpenStroke (Reaches)

variable {X C S : Type} [Field X] [LinearOrder X] (line : LinePaint X C)
  (kind : DecorationKind X C S)

/-! ### Section 1: Decorated glyphs -/

/-- A glyph has a decoration at a place: up to its end, where it is painted. -/
def GlyphDecorated (step : GlyphStep X C) (rest : List (GlyphStep X C)) (y : X) (style : S)
    (x : X) : Prop :=
  step.origin.y + kind.offsetY = y ∧ (line.decorationAt step.index).bind kind.style = some style ∧
    step.origin.x ≤ x ∧ x < line.endOf step rest

/-- One of the glyphs has. -/
def Decorated (steps : List (GlyphStep X C)) (y : X) (style : S) (x : X) : Prop :=
  ∃ front step rest, steps = front ++ step :: rest ∧
    line.GlyphDecorated kind step rest y style x

/-- The strokes cover what has the decoration, and they have a width. -/
def Underlies (steps : List (GlyphStep X C)) (strokes : List (Stroke X S)) : Prop :=
  (∀ y style x, (∃ stroke ∈ strokes, stroke.Covers y style x) ↔
    line.Decorated kind steps y style x) ∧
  ∀ stroke ∈ strokes, 0 < stroke.width

/-- A stretch with its stroke. -/
def piece (endX : X) (stretch : Stretch X S) : Piece X S X where
  row := stretch.y
  tag := stretch.style
  start := stretch.start
  stop := stretch.stop
  left := (line.strokeOf kind endX stretch).origin.x
  right := (line.strokeOf kind endX stretch).origin.x + (line.strokeOf kind endX stretch).width

variable {line kind}

variable {step prev : GlyphStep X C} {y x stop : X} {style : S} {open' : OpenStroke X S}

theorem decorated_cons {rest : List (GlyphStep X C)} : line.Decorated kind
    (step :: rest) y style x ↔
      line.GlyphDecorated kind step rest y style x ∨ line.Decorated kind rest y style x := by
  constructor
  · intro ⟨front, step', rest', heq, h⟩
    rcases front with _ | ⟨first, front⟩
    · cases heq
      exact .inl h
    · cases heq
      exact .inr ⟨front, step', rest', rfl, h⟩
  · intro h
    obtain h | ⟨front, step', rest', heq, h⟩ := h
    · exact ⟨[], step, rest, rfl, h⟩
    · exact ⟨step :: front, step', rest', by rw [heq]; rfl, h⟩

omit [Field X] in
theorem not_reaches_none :
    ¬ Reaches (none : Option (OpenStroke X S)) stop y style x := by
  intro ⟨_, hnone, _⟩
  cases hnone

omit [Field X] in
theorem reaches_some :
    Reaches (some open') stop y style x ↔
      open'.y = y ∧ open'.style = style ∧ open'.start ≤ x ∧ x < stop := by
  constructor
  · intro ⟨_, heq, h⟩
    cases heq
    exact h
  · intro h
    exact ⟨open', rfl, h⟩

variable {current : Option (OpenStroke X S)}

/-- The glyph at which something is open is part of it. -/
theorem OpenAt.reaches_end (h : line.OpenAt kind prev current) (rest : List (GlyphStep X C)) :
    Reaches current prev.origin.x y style x ∨ line.GlyphDecorated kind prev rest y style x ↔
      Reaches current (max prev.origin.x (line.endOf prev rest)) y style x := by
  have hstyle := h.style
  rcases current with _ | open'
  · have hnot : ¬ line.GlyphDecorated kind prev rest y style x := by
      intro ⟨_, hsome, _⟩
      rw [← hstyle] at hsome
      cases hsome
    simp only [not_reaches_none, hnot, or_self]
  · have hy := h.y open' rfl
    have hstart := h.start open' rfl
    have hiff : line.GlyphDecorated kind prev rest y style x ↔
        open'.y = y ∧ open'.style = style ∧ prev.origin.x ≤ x ∧ x < line.endOf prev rest := by
      unfold GlyphDecorated
      rw [← hstyle, hy, Option.map_some, Option.some_inj]
    rw [hiff, reaches_some, reaches_some, lt_max_iff]
    constructor
    · intro hleft
      obtain ⟨h1, h2, h3, h4⟩ | ⟨h1, h2, h3, h4⟩ := hleft
      · exact ⟨h1, h2, h3, .inl h4⟩
      · exact ⟨h1, h2, hstart.trans h3, .inr h4⟩
    · intro ⟨h1, h2, h3, h4⟩
      obtain hlt | hge := lt_or_ge x prev.origin.x
      · exact .inl ⟨h1, h2, h3, hlt⟩
      · exact .inr ⟨h1, h2, hge, h4.resolve_left (not_lt.2 hge)⟩

omit [Field X] in
/-- What a run opens starts at its first glyph. -/
theorem not_reaches_start
    (h : stop ≤ open'.start) : ¬ Reaches (some open') stop y style x := by
  rw [reaches_some]
  intro ⟨_, _, hle, hlt⟩
  exact absurd (lt_of_lt_of_le hlt h) (not_lt.2 hle)

theorem not_reaches_opens :
    ¬ Reaches (opens kind step) step.origin.x y style x := by
  intro ⟨open', heq, _, _, hle, hlt⟩
  obtain ⟨_, _, rfl⟩ := Option.map_eq_some_iff.1 heq
  exact absurd hlt (not_lt.2 hle)

/-- A step splits what is open into what stops and what goes on. -/
theorem advance_reaches (hfollows : line.Follows prev step) (current : Option (OpenStroke X S)) :
    (∃ stretch ∈ (line.advance kind current step).1.toList, stretch.Meant y style x) ∨
        Reaches (line.advance kind current step).2 step.origin.x y style x ↔
      Reaches current step.endX y style x := by
  rcases current with _ | open'
  · have hadvance : line.advance kind none step = (none, opens kind step) := rfl
    rw [hadvance]
    simp [not_reaches_opens, not_reaches_none]
  · have hmeant : (∃ stretch ∈ [stopped open' step], stretch.Meant y style x) ↔
        Reaches (some open') step.endX y style x := by
      rw [reaches_some]
      simp [Stretch.Meant, stopped]
    obtain ⟨_, _, heq⟩ | ⟨_, heq⟩ | ⟨hwrapped, _, heq⟩ := advance_cases line kind open' step
    · rw [heq, ← hmeant]
      have hnot : ¬ Reaches (some (line.carriedOver open' step)) step.origin.x y style x :=
        not_reaches_start (le_refl _)
      simp [hnot]
    · rw [heq, ← hmeant]
      simp [not_reaches_opens]
    · rw [heq, hfollows.along hwrapped]
      simp

/-- **The stretches are the glyphs that have the decoration.** -/
theorem stretchesFrom_meant [IsStrictOrderedRing X] {steps : List (GlyphStep X C)}
    (hchain : (prev :: steps).IsChain line.Follows) (hopen : line.OpenAt kind prev current)
    (halfMax : X) :
    (∃ stretch ∈ line.stretchesFrom kind halfMax prev current steps, stretch.Meant y style x) ↔
      Reaches current prev.origin.x y style x ∨ line.Decorated kind (prev :: steps) y style x := by
  -- induction on the steps: what is open reaches up to the next one
  induction steps generalizing prev current with
  | nil =>
    have hnil : ¬ line.Decorated kind [] y style x := by
      intro ⟨front, step, rest, heq, _⟩
      simp at heq
    rw [decorated_cons, ← or_assoc, hopen.reaches_end]
    simp only [hnil, or_false]
    cases current with
    | none => simp [stretchesFrom, not_reaches_none]
    | some open' =>
      rw [reaches_some]
      simp [stretchesFrom, Stretch.Meant]
  | cons step rest ih =>
    obtain ⟨hfollows, hrest⟩ := isChain_cons_cons.1 hchain
    have hend : line.endOf prev (step :: rest) = step.endX := hfollows.endX.symm
    have hmax : max prev.origin.x step.endX = step.endX := max_eq_right hfollows.lt_endX.le
    rw [decorated_cons, ← or_assoc, hopen.reaches_end, hend, hmax, ← advance_reaches hfollows,
      or_assoc, ← ih hrest (hopen.advance hfollows)]
    rw [stretchesFrom_cons]
    simp only [mem_append, or_and_right, exists_or]

/-! ### Section 2: Stretches in order -/

/-- A stroke lies below a place of a visual line, or behind it on the line. -/
def After (y x : X) (open' : OpenStroke X S) : Prop :=
  y < open'.y ∨ (open'.y = y ∧ x ≤ open'.start ∧ open'.carried = false)

/-- So does a glyph. -/
def GlyphAfter (kind : DecorationKind X C S) (y x : X) (step : GlyphStep X C) : Prop :=
  y < step.origin.y + kind.offsetY ∨ (step.origin.y + kind.offsetY = y ∧ x ≤ step.origin.x)

theorem GlyphAfter.opens (h : GlyphAfter kind y x step) (heq : opens kind step = some open') :
    After y x open' := by
  obtain ⟨_, _, rfl⟩ := Option.map_eq_some_iff.1 heq
  obtain hbelow | ⟨hy, hx⟩ := h
  · exact .inl hbelow
  · exact .inr ⟨hy, hx, rfl⟩

section

variable [IsStrictOrderedRing X]

variable {y x : X} {prev step : GlyphStep X C} {open' : OpenStroke X S}
variable {steps : List (GlyphStep X C)} {current : Option (OpenStroke X S)}

theorem GlyphAfter.follows (hheight : 0 < line.lineHeight)
    (h : GlyphAfter kind y x prev) (hfollows : line.Follows prev step) :
    GlyphAfter kind y x step := by
  have hend := hfollows.lt_endX
  cases hwrapped : step.wrapped with
  | true =>
    have hy := hfollows.down hwrapped
    refine .inl ?_
    obtain hbelow | ⟨heq, _⟩ := h
    · linarith
    · linarith
  | false =>
    have halong := hfollows.along hwrapped
    unfold GlyphAfter
    rw [halong]
    obtain hbelow | ⟨heq, hx⟩ := h
    · exact .inl hbelow
    · exact .inr ⟨heq, hx.trans hend.le⟩

/-- A stretch that stops before a glyph lies before it. -/
theorem stopped_before (hheight : 0 < line.lineHeight) (hfollows : line.Follows prev step)
    (hopen : line.OpenAt kind prev (some open')) :
    GlyphAfter kind open'.y step.endX step := by
  have hy := hopen.y open' rfl
  cases hwrapped : step.wrapped with
  | true =>
    refine .inl ?_
    rw [hy, hfollows.down hwrapped]
    linarith
  | false =>
    refine .inr ?_
    rw [hy, hfollows.along hwrapped]
    exact ⟨rfl, le_refl _⟩

theorem after_carriedOver (hheight : 0 < line.lineHeight) (h : y ≤ open'.y) :
    After y x (line.carriedOver open' step) := by
  refine .inl ?_
  show y < open'.y + line.lineHeight
  linarith

omit [Field X] [IsStrictOrderedRing X] in
theorem After.le_y (h : After y x open') : y ≤ open'.y := by
  obtain hlt | ⟨heq, _⟩ := h
  · exact hlt.le
  · exact heq.ge

/-- What stops behind a glyph lies after all that it lies after. -/
theorem stretchesFrom_after (hheight : 0 < line.lineHeight)
    (hchain : (prev :: steps).IsChain line.Follows) (hprev : GlyphAfter kind y x prev)
    (hcurrent : ∀ open', current = some open' → After y x open') (halfMax : X) :
    ∀ stretch ∈ line.stretchesFrom kind halfMax prev current steps,
      After y x stretch.toOpenStroke := by
  induction steps generalizing prev current with
  | nil =>
    intro stretch hmem
    cases current with
    | none => cases hmem
    | some open' =>
      obtain rfl := mem_singleton.1 hmem
      exact hcurrent open' rfl
  | cons step rest ih =>
    obtain ⟨hfollows, hrest⟩ := isChain_cons_cons.1 hchain
    have hstep := hprev.follows hheight hfollows
    have hadvance : (∀ stretch ∈ (line.advance kind current step).1.toList,
          After y x stretch.toOpenStroke) ∧
        ∀ open', (line.advance kind current step).2 = some open' → After y x open' := by
      rcases current with _ | open'
      · exact ⟨by simp [advance], fun open' heq => hstep.opens heq⟩
      · have hafter := hcurrent open' rfl
        obtain ⟨_, _, heq⟩ | ⟨_, heq⟩ | ⟨_, _, heq⟩ := advance_cases line kind open' step
        · rw [heq]
          refine ⟨by simpa [stopped] using hafter, ?_⟩
          intro _ hcarried
          cases hcarried
          exact after_carriedOver hheight hafter.le_y
        · rw [heq]
          exact ⟨by simpa [stopped] using hafter, fun _ hopens => hstep.opens hopens⟩
        · rw [heq]
          refine ⟨by simp, ?_⟩
          intro _ hopen
          cases hopen
          exact hafter
    intro stretch hmem
    rw [stretchesFrom_cons, mem_append] at hmem
    obtain hmem | hmem := hmem
    · exact hadvance.1 stretch hmem
    · exact ih hrest hstep hadvance.2 stretch hmem

/-- A stretch is not the last one, and another lies behind it. -/
def InOrder (stretch next : Stretch X S) : Prop :=
  stretch.last = false ∧ After stretch.y stretch.stop next.toOpenStroke

/-- **The stretches come in order.** -/
theorem stretchesFrom_pairwise (hheight : 0 < line.lineHeight)
    (hchain : (prev :: steps).IsChain line.Follows) (hopen : line.OpenAt kind prev current) (halfMax : X) :
    (line.stretchesFrom kind halfMax prev current steps).Pairwise InOrder := by
  induction steps generalizing prev current with
  | nil =>
    cases current with
    | none => exact List.Pairwise.nil
    | some open' => exact pairwise_singleton _ _
  | cons step rest ih =>
    obtain ⟨hfollows, hrest⟩ := isChain_cons_cons.1 hchain
    have hbehind := ih hrest (hopen.advance hfollows)
    rw [stretchesFrom_cons]
    rcases current with _ | open'
    · exact hbehind
    · have hbefore := stopped_before hheight hfollows hopen
      -- what is open behind a stretch that stops lies after it
      have hstop : ∀ current', (∀ next, current' = some next → After open'.y step.endX next) →
          (line.stretchesFrom kind halfMax step current' rest).Pairwise InOrder →
          (stopped open' step ::
            line.stretchesFrom kind halfMax step current' rest).Pairwise InOrder := by
        intro current' hnext hpairwise
        refine pairwise_cons.2 ⟨?_, hpairwise⟩
        intro stretch hmem
        exact ⟨rfl, stretchesFrom_after hheight hrest hbefore hnext halfMax stretch hmem⟩
      obtain ⟨_, _, heq⟩ | ⟨_, heq⟩ | ⟨_, _, heq⟩ := advance_cases line kind open' step
      · rw [heq] at hbehind ⊢
        refine hstop _ ?_ hbehind
        intro next hnext
        cases hnext
        exact after_carriedOver hheight (le_refl _)
      · rw [heq] at hbehind ⊢
        exact hstop _ (fun next hnext => hbefore.opens hnext) hbehind
      · rw [heq] at hbehind ⊢
        exact hbehind

/-- If every glyph has a width, every stretch has one. -/
theorem stretchesFrom_pos
    (hchain : (prev :: steps).IsChain line.Follows)
    (hwidth : ∀ step ∈ prev :: steps, step.x < line.layout.width)
    (hopen : line.OpenAt kind prev current) (halfMax : X) :
    ∀ stretch ∈ line.stretchesFrom kind halfMax prev current steps,
      stretch.start < stretch.stop := by
  induction steps generalizing prev current with
  | nil =>
    intro stretch hmem
    rcases current with _ | open'
    · cases hmem
    · obtain rfl := mem_singleton.1 hmem
      have hpos : 0 < line.layout.width - prev.x := sub_pos.2 (hwidth prev (by simp))
      have hstop : prev.origin.x < line.endOf prev [] := lt_add_of_pos_right _ hpos
      exact lt_of_le_of_lt (hopen.start open' rfl) (lt_of_lt_of_le hstop (le_max_right _ _))
  | cons step rest ih =>
    obtain ⟨hfollows, hrest⟩ := isChain_cons_cons.1 hchain
    intro stretch hmem
    rw [stretchesFrom_cons, mem_append] at hmem
    obtain hmem | hmem := hmem
    · rcases current with _ | open'
      · cases hmem
      · have hstretch : stretch = stopped open' step := by
          obtain ⟨_, _, heq⟩ | ⟨_, heq⟩ | ⟨_, _, heq⟩ := advance_cases line kind open' step
          · rw [heq] at hmem
            exact mem_singleton.1 hmem
          · rw [heq] at hmem
            exact mem_singleton.1 hmem
          · rw [heq] at hmem
            cases hmem
        rw [hstretch]
        exact lt_of_le_of_lt (hopen.start open' rfl) hfollows.lt_endX
    · have hwidth' : ∀ step' ∈ step :: rest, step'.x < line.layout.width :=
        fun step' hstep' => hwidth step' (mem_cons_of_mem _ hstep')
      exact ih hrest hwidth' (hopen.advance hfollows) stretch hmem

end

/-! ### Section 3: Strokes of stretches -/

/-- A stretch has a width; the last one stops at the end of the line; and one that goes on
    behind a wrap starts at the origin of the line, unless it stops there, half a glyph
    behind its start, so that the guard against strokes without width moves it there. -/
structure Fits (line : LinePaint X C) (kind : DecorationKind X C S) (endX : X)
    (stretch : Stretch X S) : Prop where
  pos : stretch.start < stretch.stop
  stop : stretch.last = true → endX = stretch.stop
  start : stretch.carried = true → line.origin.x = stretch.start ∨
    (line.origin.x = stretch.stop ∧ line.origin.x - stretch.halfMax = stretch.start ∧
      (stretch.finished = true → kind.keepsWidth = false))

variable {endX : X} {stretch : Stretch X S}

theorem strokeOf_of_ne (h : strokeEnd endX stretch ≠ (line.strokeStart stretch.toOpenStroke).x) :
    line.strokeOf kind endX stretch =
      ⟨line.strokeStart stretch.toOpenStroke,
        strokeEnd endX stretch - (line.strokeStart stretch.toOpenStroke).x, stretch.style⟩ := by
  unfold strokeOf Decorating.finishedStroke Decorating.strokeTo Decorating.strokeOrigin
  simp only [if_neg h, ite_self]

/-- A stroke that would have no width is moved. -/
theorem strokeOf_of_eq (h : strokeEnd endX stretch = (line.strokeStart stretch.toOpenStroke).x) :
    line.strokeOf kind endX stretch =
      ⟨⟨(line.strokeStart stretch.toOpenStroke).x - stretch.halfMax, stretch.y⟩,
        if stretch.finished = true ∧ kind.keepsWidth = true then 0 else stretch.halfMax,
        stretch.style⟩ := by
  unfold strokeOf Decorating.finishedStroke Decorating.strokeTo Decorating.strokeOrigin
  cases stretch.finished with
  | true =>
    cases kind.keepsWidth with
    | true => simp [h, strokeStart]
    | false => simp [h, strokeStart]
  | false => simp [h, strokeStart]

theorem strokeOf_frame (line : LinePaint X C) (kind : DecorationKind X C S) (endX : X)
    (stretch : Stretch X S) :
    (line.strokeOf kind endX stretch).origin.y = stretch.y ∧
      (line.strokeOf kind endX stretch).style = stretch.style := by
  by_cases h : strokeEnd endX stretch = (line.strokeStart stretch.toOpenStroke).x
  · rw [strokeOf_of_eq h]
    exact ⟨rfl, rfl⟩
  · rw [strokeOf_of_ne h]
    exact ⟨rfl, rfl⟩

/-- A stroke with a width ends where it is ended. -/
theorem strokeOf_right (h : 0 < (line.strokeOf kind endX stretch).width) :
    (line.strokeOf kind endX stretch).origin.x + (line.strokeOf kind endX stretch).width =
      strokeEnd endX stretch := by
  by_cases heq : strokeEnd endX stretch = (line.strokeStart stretch.toOpenStroke).x
  · rw [strokeOf_of_eq heq] at h ⊢
    split at h
    · exact absurd h (lt_irrefl _)
    · next hnot =>
      rw [if_neg hnot, heq]
      ring
  · rw [strokeOf_of_ne heq]
    ring

section

variable {endX : X} {stretch : Stretch X S}

section

omit [Field X] [LinearOrder X]

theorem strokeStart_of_not_carried (line : LinePaint X C) (h : stretch.carried = false) :
    (line.strokeStart stretch.toOpenStroke).x = stretch.start := by
  rw [strokeStart, h]
  rfl

theorem strokeStart_of_carried (line : LinePaint X C) (h : stretch.carried = true) :
    (line.strokeStart stretch.toOpenStroke).x = line.origin.x := by
  rw [strokeStart, h]
  rfl

end

theorem Fits.strokeEnd_eq (h : line.Fits kind endX stretch) :
    strokeEnd endX stretch = stretch.stop := by
  unfold strokeEnd
  split
  · next hlast => exact h.stop hlast
  · rfl

variable [IsStrictOrderedRing X]

/-- The stroke of a stretch that fits is right. -/
theorem Fits.exact (h : line.Fits kind endX stretch) :
    (line.piece kind endX stretch).Exact ∧ 0 < (line.strokeOf kind endX stretch).width := by
  have hend := h.strokeEnd_eq
  -- it starts right
  have hright : (line.strokeStart stretch.toOpenStroke).x = stretch.start →
      (line.piece kind endX stretch).Exact ∧ 0 < (line.strokeOf kind endX stretch).width := by
    intro hstart
    have hne : strokeEnd endX stretch ≠ (line.strokeStart stretch.toOpenStroke).x := by
      rw [hend, hstart]
      exact h.pos.ne'
    unfold piece IntervalCover.Piece.Exact
    rw [strokeOf_of_ne hne]
    simp only [hend, hstart]
    exact ⟨⟨trivial, by ring⟩, sub_pos.2 h.pos⟩
  cases hcarried : stretch.carried with
  | false => exact hright (strokeStart_of_not_carried line hcarried)
  | true =>
    obtain hstart | ⟨hstop, hstart, hkeeps⟩ := h.start hcarried
    · exact hright ((strokeStart_of_carried line hcarried).trans hstart)
    · -- it is moved to its start
      have heq : strokeEnd endX stretch = (line.strokeStart stretch.toOpenStroke).x := by
        rw [hend, strokeStart_of_carried line hcarried, hstop]
      have hnot : ¬ (stretch.finished = true ∧ kind.keepsWidth = true) := by
        intro ⟨hfinished, hkeep⟩
        rw [hkeeps hfinished] at hkeep
        cases hkeep
      have hwidth : stretch.halfMax = stretch.stop - stretch.start := by
        rw [← hstop, ← hstart]
        ring
      unfold piece IntervalCover.Piece.Exact
      rw [strokeOf_of_eq heq, strokeStart_of_carried line hcarried, if_neg hnot]
      refine ⟨⟨hstart, ?_⟩, ?_⟩
      · simp only [sub_add_cancel, hstop]
      · simp only [hwidth]
        exact sub_pos.2 h.pos

/-- A stretch fits if its stroke is right. -/
theorem fits_of_exact (hpos : stretch.start < stretch.stop)
    (h : (line.piece kind endX stretch).Exact) : line.Fits kind endX stretch := by
  obtain ⟨hleft, hright⟩ := h
  simp only [piece] at hleft hright
  have hwidth : 0 < (line.strokeOf kind endX stretch).width := by
    linarith
  have hend : strokeEnd endX stretch = stretch.stop := by
    rw [← strokeOf_right hwidth, hright]
  refine ⟨hpos, ?_, ?_⟩
  · intro hlast
    rw [← hend, strokeEnd, if_pos hlast]
  · intro hcarried
    have hstart := strokeStart_of_carried line hcarried
    by_cases heq : strokeEnd endX stretch = (line.strokeStart stretch.toOpenStroke).x
    · rw [strokeOf_of_eq heq] at hleft hwidth
      refine .inr ⟨by rw [← hstart, ← heq, hend], by rw [← hstart]; exact hleft, ?_⟩
      intro hfinished
      by_contra hkeeps
      rw [if_pos ⟨hfinished, by simpa using hkeeps⟩] at hwidth
      exact absurd hwidth (lt_irrefl _)
    · rw [strokeOf_of_ne heq] at hleft
      exact .inl (hstart.symm.trans hleft)

end

end LinePaint

end Gpui
