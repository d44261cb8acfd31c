import Gpui.Elements.TextLayout
import Gpui.Text.ShapeTextAgain

/-! # Measuring a text in any order

    The size of a text that was measured is used again for a call without a width, whatever
    width it was wrapped at.  A comment in the code says that the widths must match.

    * `Remembers` is what holds of the layout that is kept, in every state of a run.
    * `measure_faithful_iff` is one call, by the two ways to use the layout again.
    * **`measures_faithful_iff`** is every run. -/

namespace Gpui

open Exec (bind_eq_ok ok_bind)

namespace TextLayout

open WindowTextSystem (WrappedLine shapeText shapeText_kept shapeText_again)
open LineLayoutCache (Sound Extends)

variable {X C F : Type} [Field X] [LinearOrder X] [FloorRing X] [DecidableEq C]

/-! ### Section 1: Runs -/

/-- The layout of one element, and the cache that all elements share. -/
structure MeasureState (X C : Type) [Field X] [LinearOrder X] where
  cache : LineLayoutCache X
  layout : TextLayout X C

/-- The layout engine measures the element, or a line of another one is laid out. -/
inductive Step (X : Type) where
  | measure (knownWidth : Option X) (availableWidth : AvailableSpace X)
  | layoutWrappedLine (text : List Char) (fontSize : X) (runs : List FontRun)
      (wrapWidth : Option X) (maxLines : Option Nat)

def step (element : StyledText X C F) (st : MeasureState X C) :
    Step X → Run (MeasureState X C)
  | .measure knownWidth availableWidth => do
      let measured ← measure element st.cache st.layout knownWidth availableWidth
      .ok ⟨measured.cache, measured.layout⟩
  | .layoutWrappedLine text fontSize runs wrapWidth maxLines => do
      let (cache, _) ← st.cache.layoutWrappedLine text fontSize runs wrapWidth maxLines
      .ok { st with cache }

def run (element : StyledText X C F) (st : MeasureState X C) (steps : List (Step X)) :
    Run (MeasureState X C) :=
  steps.foldlM (step element) st

/-- What is seen of a measurement: the size, and the lines that are kept. -/
def answer (measured : Measured X C) : Size X × Option (List (WrappedLine X C)) :=
  (measured.size, measured.layout.map TextLayoutInner.lines)

/-- A call answers what it would if nothing was measured before. -/
def Faithful (element : StyledText X C F) (st : MeasureState X C) (knownWidth : Option X)
    (availableWidth : AvailableSpace X) : Prop :=
  (measure element st.cache st.layout knownWidth availableWidth).map answer =
    (measure element st.cache none knownWidth availableWidth).map answer

/-- A call without a width, when the layout that is kept was wrapped and not truncated. -/
structure Misled (element : StyledText X C F) (st : MeasureState X C) (knownWidth : Option X)
    (availableWidth : AvailableSpace X) : Prop where
  wrapWidth : wrapWidth element.style knownWidth availableWidth = none
  truncateWidth : (truncation element.style knownWidth availableWidth).1 = none
  kept : ∃ textLayout, st.layout = some textLayout ∧ textLayout.wrapWidth ≠ none ∧
    textLayout.truncateWidth = none

/-! ### Section 2: What is kept -/

/-- The layout that is kept has the size and the width of its lines.  If it was not
    truncated, its lines are shaped again with any later cache. -/
structure Remembers (element : StyledText X C F) (cache : LineLayoutCache X)
    (textLayout : TextLayoutInner X C) : Prop where
  size : textLayout.size = some (linesSize textLayout.lines element.style.lineHeight)
  nonempty : textLayout.lines ≠ []
  widths : ∀ line ∈ textLayout.lines, line.layout.wrapWidth = textLayout.wrapWidth
  again : textLayout.truncateWidth = none → ∀ later, Sound later → Extends cache later →
    ∃ cache', shapeText later element.resolveFont element.text element.style.fontSize
      element.runs textLayout.wrapWidth element.style.lineClamp = .ok (cache', textLayout.lines)

structure Inv (element : StyledText X C F) (st : MeasureState X C) : Prop where
  sound : Sound st.cache
  layout : ∀ textLayout, st.layout = some textLayout → Remembers element st.cache textLayout

variable {element : StyledText X C F} {st st' : MeasureState X C}

/-- A layout is remembered with every later cache. -/
theorem Remembers.extends {cache cache' : LineLayoutCache X}
    {textLayout : TextLayoutInner X C} (h : Remembers element cache textLayout)
    (hext : Extends cache cache') : Remembers element cache' textLayout where
  size := h.size
  nonempty := h.nonempty
  widths := h.widths
  again := fun htruncate later hsound hlater => h.again htruncate later hsound (hext.trans hlater)

theorem truncateText_kept {cache cache' : LineLayoutCache X} (h : Sound cache)
    {wrapWidth : Option X} {truncation : Option X × List Char × LineWrapper.TruncateFrom}
    {text : List Char} {runs : List (WindowTextSystem.TextRun X C F)}
    (htruncate : truncateText element cache wrapWidth truncation = .ok (cache', text, runs)) :
    Sound cache' ∧ Extends cache cache' := by
  unfold truncateText at htruncate
  split at htruncate
  · split at htruncate
    · obtain ⟨cut, _, hdone⟩ := bind_eq_ok.mp htruncate
      cases hdone
      exact ⟨h, Extends.refl _⟩
    · obtain ⟨⟨mid, unclipped⟩, hshape, hdone⟩ := bind_eq_ok.mp htruncate
      obtain ⟨hsound, hkeeps, _⟩ := shapeText_kept h hshape
      dsimp only at hdone
      split at hdone
      · cases hdone
        exact ⟨hsound, hkeeps⟩
      · obtain ⟨cut, _, hdone⟩ := bind_eq_ok.mp hdone
        cases hdone
        exact ⟨hsound, hkeeps⟩
  · cases htruncate
    exact ⟨h, Extends.refl _⟩

variable {cache : LineLayoutCache X} {layout : TextLayout X C} {measured : Measured X C}

/-- Without a width to fit in the text is shaped as it is. -/
theorem truncateText_of_none {wrapWidth : Option X}
    {truncation : Option X × List Char × LineWrapper.TruncateFrom} (h : truncation.1 = none) :
    truncateText element cache wrapWidth truncation = .ok (cache, element.text, element.runs) := by
  obtain ⟨truncateWidth, affix, truncateFrom⟩ := truncation
  cases h
  rfl

/-! ### Section 3: One call -/

variable {knownWidth : Option X} {availableWidth : AvailableSpace X}

omit [Field X] [FloorRing X] [DecidableEq C] in
/-- The layout that is kept is used again in one case. -/
theorem cachedSize_eq_some {wrapWidth truncateWidth : Option X} {size : Size X}
    (h : cachedSize layout wrapWidth truncateWidth = some size) :
    ∃ textLayout, layout = some textLayout ∧ textLayout.size = some size ∧
      (wrapWidth = none ∨ wrapWidth = textLayout.wrapWidth) ∧ truncateWidth = none ∧
      textLayout.truncateWidth = none := by
  cases layout with
  | none => cases h
  | some textLayout =>
    unfold cachedSize at h
    dsimp only at h
    split at h
    · next hcases => exact ⟨textLayout, rfl, h, hcases⟩
    · cases h

/-- Otherwise nothing that was measured before matters. -/
theorem measure_miss
    (hmiss : cachedSize layout (wrapWidth element.style knownWidth availableWidth) (truncation element.style knownWidth availableWidth).1 = none)
    : measure element cache layout knownWidth availableWidth =
      measure element cache none knownWidth availableWidth := by
  unfold measure
  dsimp only
  rw [hmiss]
  rfl

/-- What is shaped for a call is remembered, with the width of the call. -/
theorem measure_shapes (h : Sound cache)
    (hmeasure : measure element cache none knownWidth availableWidth = .ok measured) :
    Sound measured.cache ∧ Extends cache measured.cache ∧
      ∃ textLayout, measured.layout = some textLayout ∧
        Remembers element measured.cache textLayout ∧
        textLayout.wrapWidth = wrapWidth element.style knownWidth availableWidth := by
  obtain ⟨⟨mid, text, runs⟩, htruncate, hmeasure⟩ := bind_eq_ok.mp hmeasure
  obtain ⟨⟨cache', lines⟩, hshape, hmeasure⟩ := bind_eq_ok.mp hmeasure
  cases hmeasure
  obtain ⟨hsound, hkeeps⟩ := truncateText_kept h htruncate
  obtain ⟨hsound', hkeeps', hnonempty, hwidths⟩ := shapeText_kept hsound hshape
  refine ⟨hsound', hkeeps.trans hkeeps', _, rfl, ⟨rfl, hnonempty, hwidths, ?_⟩, rfl⟩
  intro hnone later hlater hext
  rw [truncateText_of_none hnone] at htruncate
  cases htruncate
  exact shapeText_again hsound hshape hlater hext

theorem Inv.measure (h : Inv element st)
    (hmeasure : measure element st.cache st.layout knownWidth availableWidth = .ok measured) :
    Inv element ⟨measured.cache, measured.layout⟩ := by
  cases hcached : cachedSize st.layout (wrapWidth element.style knownWidth availableWidth)
      (truncation element.style knownWidth availableWidth).1 with
  | none =>
    rw [measure_miss hcached] at hmeasure
    obtain ⟨hsound, _, textLayout, hlayout, hremembers, _⟩ := measure_shapes h.sound hmeasure
    refine ⟨hsound, ?_⟩
    intro other hother
    rw [hlayout] at hother
    cases hother
    exact hremembers
  | some size =>
    unfold TextLayout.measure at hmeasure
    dsimp only at hmeasure
    rw [hcached] at hmeasure
    cases hmeasure
    exact h

/-- **A call answers as if nothing was measured before iff it is not misled.** -/
theorem measure_faithful_iff (h : Inv element st) (knownWidth : Option X)
    (availableWidth : AvailableSpace X) :
    Faithful element st knownWidth availableWidth ↔
      ¬ Misled element st knownWidth availableWidth := by
  cases hcached : cachedSize st.layout (wrapWidth element.style knownWidth availableWidth)
      (truncation element.style knownWidth availableWidth).1 with
  | none =>
    refine iff_of_true ?_ ?_
    · unfold Faithful
      rw [measure_miss hcached]
    · intro ⟨hwrap, htruncate, textLayout, hlayout, _, hfull⟩
      rw [hlayout, hwrap, htruncate] at hcached
      have hsize := (h.layout textLayout hlayout).size
      unfold cachedSize at hcached
      dsimp only at hcached
      rw [if_pos ⟨Or.inl rfl, rfl, hfull⟩, hsize] at hcached
      cases hcached
  | some size =>
    obtain ⟨textLayout, hlayout, hsize, hwidth, htruncate, hfull⟩ := cachedSize_eq_some hcached
    have hremembers := h.layout textLayout hlayout
    have hhit : (TextLayout.measure element st.cache st.layout knownWidth availableWidth).map
        answer = .ok (size, some textLayout.lines) := by
      unfold TextLayout.measure
      dsimp only
      rw [hcached, hlayout]
      rfl
    unfold Faithful
    rw [hhit]
    by_cases hsame : textLayout.wrapWidth = wrapWidth element.style knownWidth availableWidth
    · -- the same lines would be shaped
      refine iff_of_true ?_ ?_
      · obtain ⟨cache', hshape⟩ := hremembers.again hfull st.cache h.sound (Extends.refl _)
        have hkept := hremembers.size
        rw [hsize] at hkept
        unfold TextLayout.measure
        dsimp only [cachedSize]
        rw [truncateText_of_none htruncate, ok_bind, ← hsame, hshape, ok_bind,
          Option.some.inj hkept]
        rfl
      · intro hmisled
        obtain ⟨other, hother, hwrapped, _⟩ := hmisled.kept
        rw [hlayout] at hother
        cases hother
        exact hwrapped (hsame.trans hmisled.wrapWidth)
    · -- the lines that would be shaped have another width
      have hnone := hwidth.resolve_right (fun heq => hsame heq.symm)
      have hwrapped : textLayout.wrapWidth ≠ none := by
        rw [← hnone]
        exact hsame
      refine iff_of_false ?_ (not_not.mpr ⟨hnone, htruncate, textLayout, hlayout, hwrapped, hfull⟩)
      intro hfresh
      obtain ⟨measured, hmeasure, hanswer⟩ := Exec.map_eq_ok.mp hfresh.symm
      obtain ⟨_, _, fresh, hlayout', hremembers', hwidth'⟩ := measure_shapes h.sound hmeasure
      have hlines : fresh.lines = textLayout.lines := by
        have hsnd := congrArg Prod.snd hanswer
        unfold answer at hsnd
        rw [hlayout'] at hsnd
        exact Option.some.inj hsnd
      obtain ⟨line, hline⟩ := List.exists_mem_of_ne_nil _ hremembers.nonempty
      have hold := hremembers.widths line hline
      rw [← hlines] at hline
      have hnew := hremembers'.widths line hline
      rw [hold, hwidth'] at hnew
      exact hsame hnew

/-! ### Section 4: The result -/

theorem Inv.step (h : Inv element st) {next : Step X}
    (hstep : step element st next = .ok st') : Inv element st' := by
  cases next with
  | measure knownWidth availableWidth =>
    obtain ⟨measured, hmeasure, hdone⟩ := bind_eq_ok.mp hstep
    cases hdone
    exact h.measure hmeasure
  | layoutWrappedLine text fontSize runs wrapWidth maxLines =>
    obtain ⟨cache', layout, hlayout, hkept⟩ :=
      h.sound.layoutWrappedLine text fontSize runs wrapWidth maxLines
    unfold TextLayout.step at hstep
    dsimp only at hstep
    rw [hlayout, ok_bind] at hstep
    cases hstep
    refine ⟨hkept.sound, ?_⟩
    intro textLayout hlayout
    exact (h.layout textLayout hlayout).extends hkept.keeps

theorem Inv.run (h : Inv element st) {steps : List (Step X)}
    (hrun : run element st steps = .ok st') : Inv element st' := by
  induction steps generalizing st with
  | nil =>
    cases hrun
    exact h
  | cons next rest ih =>
    obtain ⟨mid, hstep, hrest⟩ := bind_eq_ok.mp hrun
    exact ih (h.step hstep) hrest

/-- What holds at every call of a run. -/
def EveryCall (element : StyledText X C F) (st : MeasureState X C) (steps : List (Step X))
    (P : MeasureState X C → Option X → AvailableSpace X → Prop) : Prop :=
  ∀ before knownWidth availableWidth after,
    steps = before ++ .measure knownWidth availableWidth :: after →
    ∀ st', run element st before = .ok st' → P st' knownWidth availableWidth

/-- **Every call answers as if nothing was measured before iff none is misled**: in every run,
    with whatever was laid out before and in between. -/
theorem measures_faithful_iff (platform : PlatformTextSystem X)
    (ops : List (LineLayoutCache.Op X)) (session : LineLayoutCache.Session X)
    (hsession : LineLayoutCache.run ⟨.new platform, []⟩ ops = .ok session)
    (element : StyledText X C F) (steps : List (Step X)) :
    EveryCall element ⟨session.cache, none⟩ steps (Faithful element) ↔
      EveryCall element ⟨session.cache, none⟩ steps (fun st knownWidth availableWidth =>
        ¬ Misled element st knownWidth availableWidth) := by
  have hinit : Inv element (⟨session.cache, none⟩ : MeasureState X C) := by
    refine ⟨(LineLayoutCache.sound_new platform).run hsession, ?_⟩
    intro textLayout hnone
    cases hnone
  have hcall : ∀ before st' knownWidth availableWidth,
      run element ⟨session.cache, none⟩ before = .ok st' →
      (Faithful element st' knownWidth availableWidth ↔
        ¬ Misled element st' knownWidth availableWidth) := by
    intro before st' knownWidth availableWidth hrun
    exact measure_faithful_iff (hinit.run hrun) knownWidth availableWidth
  constructor
  · intro hfaithful before knownWidth availableWidth after hsteps st' hrun
    exact (hcall before st' _ _ hrun).mp
      (hfaithful before knownWidth availableWidth after hsteps st' hrun)
  · intro hled before knownWidth availableWidth after hsteps st' hrun
    exact (hcall before st' _ _ hrun).mpr
      (hled before knownWidth availableWidth after hsteps st' hrun)

/-- The text "abc" with glyphs of 2. -/
def styledABC : StyledText ℚ Nat Nat where
  text := ['a', 'b', 'c']
  runs := [⟨⟨0, none, none, none⟩, 3, 7⟩]
  style := ⟨1, 2, .normal, none, none⟩
  resolveFont := id
  widthForChar := fun _ => 2

/-- A measurement without a width, and one with a width. -/
theorem measures_faithful_iff_widening :
    EveryCall styledABC ⟨.new LineLayoutCache.platformABC, none⟩
        [.measure none .maxContent, .measure (some 3) .minContent] (Faithful styledABC) ↔
      EveryCall styledABC ⟨.new LineLayoutCache.platformABC, none⟩
        [.measure none .maxContent, .measure (some 3) .minContent]
        (fun st knownWidth availableWidth => ¬ Misled styledABC st knownWidth availableWidth) :=
  measures_faithful_iff LineLayoutCache.platformABC []
    ⟨.new LineLayoutCache.platformABC, []⟩ rfl styledABC _

/-- The other way round the call without a width returns the wrapped size. -/
theorem probe_after_wrap :
    ¬ ∀ (element : StyledText ℚ Nat Nat) (steps : List (Step ℚ)),
      EveryCall element ⟨.new LineLayoutCache.platformABC, none⟩ steps (Faithful element) := by
  intro h
  have hrun : ((run styledABC ⟨.new LineLayoutCache.platformABC, none⟩
      [.measure (some 3) .minContent]).bind (fun st =>
        (measure styledABC st.cache st.layout none .maxContent).bind (fun kept =>
          (measure styledABC st.cache none none .maxContent).map (fun fresh =>
            (kept.size, fresh.size))))) = .ok (⟨3, 6⟩, ⟨6, 2⟩) := by decide +kernel
  obtain ⟨st, hst, hsizes⟩ := Exec.bind_eq_ok.mp hrun
  obtain ⟨kept, hkept, hsizes⟩ := Exec.bind_eq_ok.mp hsizes
  obtain ⟨fresh, hfresh, hsizes⟩ := Exec.map_eq_ok.mp hsizes
  have hfaithful := h styledABC [.measure (some 3) .minContent, .measure none .maxContent]
    [.measure (some 3) .minContent] none .maxContent [] rfl st hst
  unfold Faithful at hfaithful
  rw [hkept, hfresh] at hfaithful
  have hsame : kept.size = fresh.size := congrArg Prod.fst (Except.ok.inj hfaithful)
  have hdiffer : (⟨3, 6⟩ : Size ℚ) ≠ ⟨6, 2⟩ := by decide +kernel
  rw [Prod.mk.injEq] at hsizes
  rw [hsizes.1, hsizes.2] at hsame
  exact hdiffer hsame

end TextLayout

end Gpui
