import Gpui.Text.PaintLineSteps
import Gpui.Text.VisualLines

/-! # The stretches of a decoration

    A stretch are the consecutive glyphs of a visual line that one stroke is meant for.  It
    starts where the first of them is painted, and stops where the last of them ends.  The
    strokes that are painted are those of the stretches, from left or right positions or
    from wrong ones. -/

namespace Gpui

/-- A stroke that is open. -/
structure OpenStroke (X S : Type) where
  y : X
  /-- Where the first of its glyphs on the visual line is painted. -/
  start : X
  /-- It goes on from the visual line above. -/
  carried : Bool
  style : S

structure Stretch (X S : Type) extends OpenStroke X S where
  /-- Where the last of its glyphs ends. -/
  stop : X
  halfMax : X
  /-- It stops where its style does. -/
  finished : Bool
  /-- It stops where the text does. -/
  last : Bool

namespace LinePaint

variable {X C S : Type} [Field X] [LinearOrder X] (line : LinePaint X C)
  (kind : DecorationKind X C S)

/-! ### Section 1: Stretches -/

/-- Where the stroke of a stretch is started: behind a wrap at the origin of the line. -/
def strokeStart (open' : OpenStroke X S) : Point X :=
  ⟨if open'.carried then line.origin.x else open'.start, open'.y⟩

/-- Where it is ended: the last one at the end of the line. -/
def strokeEnd (endX : X) (stretch : Stretch X S) : X :=
  if stretch.last then endX else stretch.stop

/-- The stroke that is painted for a stretch. -/
def strokeOf (endX : X) (stretch : Stretch X S) : Stroke X S :=
  let origin := line.strokeStart stretch.toOpenStroke
  if stretch.finished then
    Decorating.finishedStroke kind origin stretch.style (strokeEnd endX stretch) stretch.halfMax
  else Decorating.strokeTo origin stretch.style (strokeEnd endX stretch) stretch.halfMax

/-- What is opened at a glyph where a run begins. -/
def opens (step : GlyphStep X C) : Option (OpenStroke X S) :=
  (step.styleRun.join.bind (fun run => kind.style run.toDecoration)).map
    (fun style => ⟨step.origin.y + kind.offsetY, step.origin.x, false, style⟩)

/-- A stroke goes on at a glyph of the same visual line. -/
def goesOn (step : GlyphStep X C) (style : S) : Bool :=
  match step.styleRun with
  | none            => true
  | some none       => false
  | some (some run) => kind.continues run.toDecoration style

/-- The stretch that stops before a glyph. -/
def stopped (open' : OpenStroke X S) (step : GlyphStep X C) : Stretch X S :=
  { open' with stop := step.endX, halfMax := step.halfMax, finished := !step.wrapped,
               last := false }

/-- What goes on at a glyph of the next visual line. -/
def carriedOver (open' : OpenStroke X S) (step : GlyphStep X C) : OpenStroke X S :=
  { open' with y := open'.y + line.lineHeight, start := step.origin.x, carried := true }

/-- The stretch that stops before a glyph, if one does, and what is open then. -/
def advance : Option (OpenStroke X S) → GlyphStep X C →
    Option (Stretch X S) × Option (OpenStroke X S)
  | none, step => (none, opens kind step)
  | some open', step =>
      if step.wrapped then
        if step.styleRun.isNone then (some (stopped open' step), some (line.carriedOver open' step))
        else (some (stopped open' step), opens kind step)
      else if goesOn kind step open'.style then (none, some open')
      else (some (stopped open' step), opens kind step)

/-- The end of a glyph on its visual line. -/
def endOf (step : GlyphStep X C) (rest : List (GlyphStep X C)) : X :=
  step.origin.x + (LineLayout.nextX line.layout.width (rest.map GlyphStep.glyphAt) - step.x)

/-- The stretches behind a glyph. -/
def stretchesFrom (lastHalfMax : X) :
    GlyphStep X C → Option (OpenStroke X S) → List (GlyphStep X C) → List (Stretch X S)
  | _, none, [] => []
  | prev, some open', [] =>
      [{ open' with stop := max prev.origin.x (line.endOf prev []), halfMax := lastHalfMax,
                    finished := false, last := true }]
  | _, current, step :: rest =>
      (line.advance kind current step).1.toList ++
        stretchesFrom lastHalfMax step (line.advance kind current step).2 rest

/-- The stretches of a line. -/
def stretches (lastHalfMax : X) : List (GlyphStep X C) → List (Stretch X S)
  | [] => []
  | first :: rest => line.stretchesFrom kind lastHalfMax first (opens kind first) rest

variable {line kind}

theorem stretchesFrom_cons (halfMax : X) (prev step : GlyphStep X C)
    (rest : List (GlyphStep X C)) (current : Option (OpenStroke X S)) :
    line.stretchesFrom kind halfMax prev current (step :: rest) =
      (line.advance kind current step).1.toList ++
        line.stretchesFrom kind halfMax step (line.advance kind current step).2 rest := by
  cases current with
  | none => rfl
  | some open' => rfl

/-! ### Section 2: The strokes of the stretches -/

/-- What a decoration remembers of an open stroke. -/
def remembered (line : LinePaint X C) (open' : OpenStroke X S) : Point X × S :=
  (line.strokeStart open', open'.style)

variable {step prev : GlyphStep X C}

omit [LinearOrder X] in
/-- A run that begins while nothing is open. -/
theorem openAt_none (line : LinePaint X C) {run : DecorationRun X C}
    (h : step.styleRun = some (some run)) :
    Decorating.openAt kind step run none = (opens kind step).map line.remembered := by
  unfold opens Decorating.openAt
  rw [h]
  simp only [Option.join_some, Option.bind_some]
  generalize kind.style run.toDecoration = style
  cases style with
  | none => rfl
  | some style => rfl

theorem enterRun_none (line : LinePaint X C) {styleRun : Option (DecorationRun X C)}
    (h : step.styleRun = some styleRun) (strokes : List (Stroke X S)) :
    Decorating.enterRun kind step styleRun ⟨none, strokes⟩ =
      ⟨(opens kind step).map line.remembered, strokes⟩ := by
  unfold Decorating.enterRun Decorating.change
  rcases styleRun with _ | run
  · have hopens : opens kind step = none := by
      unfold opens
      rw [h]
      rfl
    rw [hopens]
    rfl
  · rw [← openAt_none line h]

omit [LinearOrder X] in
theorem opens_eq_none (h : step.styleRun.join = none) :
    opens kind step = none := by
  unfold opens
  rw [h]
  rfl

/-- A step while nothing is open. -/
theorem next_none (line : LinePaint X C) (step : GlyphStep X C) (strokes : List (Stroke X S)) :
    Decorating.next line kind ⟨none, strokes⟩ step =
      ⟨(opens kind step).map line.remembered, strokes⟩ := by
  have hwrap : (if step.wrapped = true then
      Decorating.wrap line step (⟨none, strokes⟩ : Decorating X S) else ⟨none, strokes⟩) =
        ⟨none, strokes⟩ := by
    split
    · rfl
    · rfl
  unfold Decorating.next
  rw [hwrap]
  generalize hstyle : step.styleRun = styleRun
  rcases styleRun with _ | styleRun
  · rw [opens_eq_none (by rw [hstyle]; rfl)]
    rfl
  · exact enterRun_none line hstyle strokes

/-- **The step of a decoration paints the stretch that stops.** -/
theorem next_eq (hinRun : step.inRun = step.styleRun.isNone)
    (halong : step.wrapped = false → step.origin.x = step.endX)
    (current : Option (OpenStroke X S)) (strokes : List (Stroke X S)) (endX : X) :
    Decorating.next line kind ⟨current.map line.remembered, strokes⟩ step =
      ⟨(line.advance kind current step).2.map line.remembered,
        strokes ++ (line.advance kind current step).1.toList.map (line.strokeOf kind endX)⟩ := by
  rcases current with _ | open'
  · simpa [advance] using next_none line step strokes
  · unfold Decorating.next
    cases hwrapped : step.wrapped with
    | true =>
      -- the stroke is painted up to the wrap
      generalize hstyle : step.styleRun = styleRun
      rw [hstyle] at hinRun
      rcases styleRun with _ | styleRun
      · simp [advance, Decorating.wrap, remembered, hwrapped, hstyle, hinRun, strokeOf,
          strokeStart, strokeEnd, stopped, carriedOver]
      · simp only [Option.map_some, if_true, Decorating.wrap, remembered, hinRun]
        simp only [Option.isNone_some, Bool.false_eq_true, if_false]
        rw [enterRun_none line hstyle]
        simp [advance, hwrapped, hstyle, strokeOf, strokeStart, strokeEnd, stopped]
    | false =>
      have hx := halong hwrapped
      generalize hstyle : step.styleRun = styleRun
      rcases styleRun with _ | _ | run
      · simp [advance, goesOn, hwrapped, hstyle]
      · -- the runs are used up
        simp [advance, goesOn, hwrapped, hstyle, opens_eq_none, Decorating.enterRun,
          Decorating.change, remembered, strokeOf, strokeEnd, stopped, hx]
      · cases hcontinues : kind.continues run.toDecoration open'.style with
        | true =>
          simp [advance, goesOn, hwrapped, hstyle, hcontinues, Decorating.enterRun,
            Decorating.change, remembered, Decorating.openAt]
        | false =>
          simp [advance, goesOn, hwrapped, hstyle, hcontinues, Decorating.enterRun,
            Decorating.change, remembered, openAt_none line hstyle, strokeOf, strokeEnd,
            stopped, hx]

/-- The strokes behind a glyph. -/
theorem foldl_next {steps : List (GlyphStep X C)}
    (hchain : (prev :: steps).IsChain line.Follows) (current : Option (OpenStroke X S))
    (strokes : List (Stroke X S)) (endX halfMax : X) :
    (steps.foldl (Decorating.next line kind) ⟨current.map line.remembered, strokes⟩).finish
        endX halfMax =
      strokes ++
        (line.stretchesFrom kind halfMax prev current steps).map (line.strokeOf kind endX) := by
  induction steps generalizing prev current strokes with
  | nil =>
    rcases current with _ | open'
    · simp [stretchesFrom, Decorating.finish]
    · simp [stretchesFrom, Decorating.finish, remembered, strokeOf, strokeEnd]
  | cons step rest ih =>
    obtain ⟨hfollows, hrest⟩ := List.isChain_cons_cons.1 hchain
    have halong : step.wrapped = false → step.origin.x = step.endX := by
      intro hwrapped
      rw [hfollows.along hwrapped]
    rw [List.foldl_cons, next_eq hfollows.enters.inRun halong current strokes endX,
      ih hrest, List.append_assoc, ← List.map_append, stretchesFrom_cons]

/-- **The strokes of a line are those of its stretches.** -/
theorem Walk.strokes_eq {steps : List (GlyphStep X C)} (h : line.Walk steps) (endX halfMax : X) :
    line.strokes kind steps endX halfMax =
      (line.stretches kind halfMax steps).map (line.strokeOf kind endX) := by
  unfold strokes
  rcases steps with _ | ⟨first, rest⟩
  · rfl
  · rw [List.foldl_cons, Decorating.start, next_none,
      foldl_next h.chain (opens kind first) [] endX halfMax]
    rfl

/-! ### Section 3: The open stroke at a glyph -/

/-- What is open at a glyph has the decoration of the glyph, lies on its visual line, and does
    not start behind it. -/
structure OpenAt (line : LinePaint X C) (kind : DecorationKind X C S) (step : GlyphStep X C)
    (current : Option (OpenStroke X S)) : Prop where
  style : current.map OpenStroke.style = (line.decorationAt step.index).bind kind.style
  y : ∀ open', current = some open' → open'.y = step.origin.y + kind.offsetY
  start : ∀ open', current = some open' → open'.start ≤ step.origin.x

/-- What a run that begins at a glyph opens. -/
theorem openAt_opens {before : Option (Decoration X C)} (h : line.Enters before step)
    (hnone : step.styleRun = none → before.bind kind.style = none) :
    line.OpenAt kind step (opens kind step) := by
  refine ⟨?_, ?_, ?_⟩
  · generalize hstyle : step.styleRun = styleRun
    rcases styleRun with _ | styleRun
    · rw [opens_eq_none (by rw [hstyle]; rfl), h.carries hstyle, hnone hstyle]
      rfl
    · rw [h.changes styleRun hstyle, opens, hstyle, Option.join_some, Option.map_map]
      cases styleRun with
      | none => rfl
      | some run => simp [Function.comp_def]
  · intro open' heq
    obtain ⟨_, _, rfl⟩ := Option.map_eq_some_iff.1 heq
    rfl
  · intro open' heq
    obtain ⟨_, _, rfl⟩ := Option.map_eq_some_iff.1 heq
    exact le_refl _

/-- A glyph ends where the next one is, if that stands on the same visual line. -/
theorem Follows.lt_endX [IsStrictOrderedRing X]
    (h : line.Follows prev step) : prev.origin.x < step.endX := by
  rw [h.endX]
  exact lt_add_of_pos_right _ (sub_pos.2 h.x_lt)

omit [LinearOrder X] in
/-- What a step does to an open stroke: the visual line is wrapped in its run; it stops; or it
    goes on. -/
theorem advance_cases (line : LinePaint X C) (kind : DecorationKind X C S)
    (open' : OpenStroke X S) (step : GlyphStep X C) :
    (step.wrapped = true ∧ step.styleRun = none ∧
        line.advance kind (some open') step =
          (some (stopped open' step), some (line.carriedOver open' step))) ∨
      (step.styleRun ≠ none ∧
        line.advance kind (some open') step = (some (stopped open' step), opens kind step)) ∨
      (step.wrapped = false ∧ goesOn kind step open'.style = true ∧
        line.advance kind (some open') step = (none, some open')) := by
  cases hwrapped : step.wrapped with
  | true =>
    by_cases hnone : step.styleRun = none
    · exact .inl ⟨rfl, hnone, by simp [advance, hwrapped, hnone]⟩
    · exact .inr (.inl ⟨hnone, by simp [advance, hwrapped, hnone]⟩)
  | false =>
    cases hgoes : goesOn kind step open'.style with
    | true => exact .inr (.inr ⟨rfl, rfl, by simp [advance, hwrapped, hgoes]⟩)
    | false =>
      refine .inr (.inl ⟨?_, by simp [advance, hwrapped, hgoes]⟩)
      intro hnone
      rw [goesOn, hnone] at hgoes
      cases hgoes

/-- What goes on in a run has its decoration. -/
theorem Follows.style_eq (h : line.Follows prev step)
    {style : S} (hstyle : (line.decorationAt prev.index).bind kind.style = some style)
    (hgoes : goesOn kind step style = true) :
    (line.decorationAt step.index).bind kind.style = some style := by
  unfold goesOn at hgoes
  generalize hstyleRun : step.styleRun = styleRun at hgoes
  rcases styleRun with _ | _ | run
  · rw [h.enters.carries hstyleRun, hstyle]
  · cases hgoes
  · obtain ⟨before, _, hbefore⟩ := Option.bind_eq_some_iff.1 hstyle
    rw [h.enters.changes _ hstyleRun]
    exact kind.style_of_continues _ _ _ hbefore hgoes

theorem OpenAt.advance [IsStrictOrderedRing X]
    {current : Option (OpenStroke X S)} (h : line.OpenAt kind prev current)
    (hfollows : line.Follows prev step) :
    line.OpenAt kind step (line.advance kind current step).2 := by
  rcases current with _ | open'
  · exact openAt_opens hfollows.enters (fun _ => h.style.symm)
  · have hstyle := h.style.symm
    have hy := h.y open' rfl
    obtain ⟨hwrapped, hnone, heq⟩ | ⟨hsome, heq⟩ | ⟨hwrapped, hgoes, heq⟩ :=
      advance_cases line kind open' step
    · -- it goes on at the start of the visual line
      rw [heq]
      refine ⟨?_, ?_, ?_⟩
      · rw [hfollows.enters.carries hnone, hstyle]
        rfl
      · intro _ hcarried
        cases hcarried
        rw [carriedOver, hfollows.down hwrapped, hy]
        ring
      · intro _ hcarried
        cases hcarried
        exact le_refl _
    · rw [heq]
      exact openAt_opens hfollows.enters (fun hnone => absurd hnone hsome)
    · rw [heq]
      refine ⟨(hfollows.style_eq hstyle hgoes).symm, ?_, ?_⟩
      · intro _ hopen
        cases hopen
        rw [hfollows.along hwrapped, hy]
      · intro _ hopen
        cases hopen
        rw [hfollows.along hwrapped]
        exact (h.start open' rfl).trans hfollows.lt_endX.le

end LinePaint

end Gpui
