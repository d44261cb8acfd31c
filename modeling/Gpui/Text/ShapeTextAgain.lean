import Gpui.Text.LineLayoutCacheSpec
import Gpui.Text.ShapeText

/-! # Shaping a text again

    Within a frame the cache forgets no wrapped line, so that a text which is shaped again
    gets the lines that it got before, whatever was shaped in between.

    * `Sound` is what every operation on the cache keeps, `Extends` that nothing is forgotten.
    * `shapeText_kept` and `shapeText_again` are the results. -/

namespace Gpui

open List

open Exec (bind_eq_ok ok_bind)

namespace LineLayoutCache

variable {X : Type} [Field X] [LinearOrder X] {cache cache' : LineLayoutCache X}

/-! ### Section 1: The cache -/

/-- A wrapped layout has the width of its key. -/
def SameWidth (key : CacheKey X) (layout : WrappedLineLayout X) : Prop :=
  layout.wrapWidth = key.wrapWidth

structure Sound (cache : LineLayoutCache X) : Prop where
  lines : Holds cache.previousFrame.lines cache.currentFrame.lines
    (GoodLine cache.platformTextSystem)
  wrappedLines : Holds cache.previousFrame.wrappedLines cache.currentFrame.wrappedLines SameWidth

/-- Every key finds what it found before. -/
def Extends (cache cache' : LineLayoutCache X) : Prop :=
  ∀ key layout, cache.wrappedFor key = some layout → cache'.wrappedFor key = some layout

theorem sound_new (platform : PlatformTextSystem X) : Sound (new platform) where
  lines := (inv_new platform).lines
  wrappedLines := by
    intro key layout h
    rcases h with h | h <;> cases h

section

omit [Field X] [LinearOrder X]

theorem Extends.refl (cache : LineLayoutCache X) : Extends cache cache :=
  fun _ _ hfound => hfound

theorem Extends.trans {cache'' : LineLayoutCache X} (h : Extends cache cache')
    (h' : Extends cache' cache'') : Extends cache cache'' :=
  fun key layout hfound => h' key layout (h key layout hfound)

end

theorem Sound.wrappedLines_layoutWrappedLine (h : Sound cache) {text : List Char} {fontSize : X}
    {runs : List FontRun} {wrapWidth : Option X} {maxLines : Option Nat}
    {layout : WrappedLineLayout X}
    (hlayout : cache.layoutWrappedLine text fontSize runs wrapWidth maxLines =
      .ok (cache', layout)) :
    Holds cache'.previousFrame.wrappedLines cache'.currentFrame.wrappedLines SameWidth ∧
      layout.wrapWidth = wrapWidth := by
  unfold layoutWrappedLine at hlayout
  dsimp only at hlayout
  cases hcurrent : cache.currentFrame.wrappedLines ⟨text, fontSize, runs, wrapWidth, none⟩ with
  | some found =>
    rw [hcurrent] at hlayout
    cases hlayout
    exact ⟨h.wrappedLines, h.wrappedLines _ _ (Or.inl hcurrent)⟩
  | none =>
    rw [hcurrent] at hlayout
    cases hprevious : cache.previousFrame.wrappedLines ⟨text, fontSize, runs, wrapWidth, none⟩ with
    | some found =>
      rw [hprevious] at hlayout
      cases hlayout
      have hgood := h.wrappedLines _ _ (Or.inr hprevious)
      exact ⟨(h.wrappedLines.remove _).insert hgood, hgood⟩
    | none =>
      rw [hprevious] at hlayout
      obtain ⟨_, _, _, hprevious', hcurrent'⟩ := layoutLine_spec text fontSize runs none h.lines
      obtain ⟨wrapBoundaries, _, hmade⟩ := bind_eq_ok.mp hlayout
      cases hmade
      have hothers := h.wrappedLines
      rw [← hprevious', ← hcurrent'] at hothers
      exact ⟨hothers.insert rfl, rfl⟩

/-- What `layout_wrapped_line` leaves behind, and the layout that it returns. -/
structure Kept (cache cache' : LineLayoutCache X) (key : CacheKey X)
    (layout : WrappedLineLayout X) : Prop where
  sound : Sound cache'
  keeps : Extends cache cache'
  width : layout.wrapWidth = key.wrapWidth
  found : cache'.wrappedFor key = some layout
  again : ∀ other, cache.wrappedFor key = some other → other = layout

theorem Sound.layoutWrappedLine (h : Sound cache) (text : List Char) (fontSize : X)
    (runs : List FontRun) (wrapWidth : Option X) (maxLines : Option Nat) :
    ∃ cache' layout,
      cache.layoutWrappedLine text fontSize runs wrapWidth maxLines = .ok (cache', layout) ∧
      Kept cache cache' ⟨text, fontSize, runs, wrapWidth, none⟩ layout := by
  obtain ⟨cache', layout, hlayout, hplatform, hlines, hfound, hcases⟩ :=
    layoutWrappedLine_spec text fontSize runs wrapWidth maxLines h.lines
  have hagain : ∀ other, cache.wrappedFor ⟨text, fontSize, runs, wrapWidth, none⟩ = some other →
      other = layout := by
    intro other hother
    rcases hcases with hhit | ⟨hmiss, _⟩
    · rw [hhit] at hother
      exact (Option.some.inj hother).symm
    · rw [hmiss] at hother
      cases hother
  have hkeeps : Extends cache cache' := by
    intro key other hother
    rw [hfound]
    split
    · next heq =>
      rw [heq] at hother
      rw [hagain other hother]
    · exact hother
  obtain ⟨hwrapped, hwidth⟩ := h.wrappedLines_layoutWrappedLine hlayout
  refine ⟨cache', layout, hlayout, ⟨?_, hwrapped⟩, hkeeps, hwidth, ?_, hagain⟩
  · rw [hplatform]
    exact hlines
  · rw [hfound, if_pos rfl]

theorem Sound.step {session session' : Session X} (h : Sound session.cache) {op : Op X}
    (hstep : step session op = .ok session') : Sound session'.cache := by
  cases op with
  | layoutWrappedLine text fontSize runs wrapWidth maxLines =>
    obtain ⟨cache', layout, hlayout, hkept⟩ :=
      h.layoutWrappedLine text fontSize runs wrapWidth maxLines
    unfold LineLayoutCache.step at hstep
    dsimp only at hstep
    rw [hlayout] at hstep
    cases hstep
    exact hkept.sound
  | layoutLine text fontSize runs forceWidth =>
    cases hstep
    obtain ⟨_, hsame, hlines, hprevious, hcurrent⟩ :=
      layoutLine_spec text fontSize runs forceWidth h.lines
    refine ⟨?_, ?_⟩
    · rw [hsame]
      exact hlines
    · rw [hprevious, hcurrent]
      exact h.wrappedLines
  | reuseLayouts first last =>
    obtain ⟨cache', hreuse, hdone⟩ := bind_eq_ok.mp hstep
    obtain ⟨usedLines, _, hreuse⟩ := bind_eq_ok.mp hreuse
    obtain ⟨usedWrappedLines, _, hreuse⟩ := bind_eq_ok.mp hreuse
    cases hreuse
    cases hdone
    exact ⟨h.lines.moveEntries usedLines, h.wrappedLines.moveEntries usedWrappedLines⟩
  | truncateLayouts index =>
    cases hstep
    exact ⟨h.lines, h.wrappedLines⟩
  | finishFrame =>
    cases hstep
    exact ⟨h.lines.swap, h.wrappedLines.swap⟩

theorem Sound.run {session session' : Session X} (h : Sound session.cache) {ops : List (Op X)}
    (hrun : run session ops = .ok session') : Sound session'.cache := by
  induction ops generalizing session with
  | nil =>
    cases hrun
    exact h
  | cons op rest ih =>
    obtain ⟨next, hstep, hrest⟩ := bind_eq_ok.mp hrun
    exact ih (h.step hstep) hrest

end LineLayoutCache

namespace WindowTextSystem

open LineLayoutCache (Sound Extends)

variable {X C F : Type} [DecidableEq X] [DecidableEq C] [Field X] [LinearOrder X]
variable {resolveFont : F → Nat} {fontSize : X} {wrapWidth : Option X} {lineClamp : Option Nat}

/-! ### Section 2: The lines of a text -/

/-- What shaping some lines leaves behind. -/
structure Shaped (wrapWidth : Option X) (st st' : Shaping X C F) (shaped : List (WrappedLine X C)) :
    Prop where
  sound : Sound st'.cache
  keeps : Extends st.cache st'.cache
  lines : st'.lines = st.lines ++ shaped
  widths : ∀ line ∈ shaped, line.layout.wrapWidth = wrapWidth

/-- A line that is shaped with another cache in place. -/
def Shaping.withCache (st : Shaping X C F) (cache : LineLayoutCache X) : Shaping X C F :=
  { st with cache }

theorem processLine_shaped {st st' : Shaping X C F} (h : Sound st.cache) {lineText : List Char}
    (hstep : processLine resolveFont fontSize wrapWidth lineClamp st lineText = .ok st') :
    (∃ line, Shaped wrapWidth st st' [line]) ∧
    ∀ cache, Sound cache → Extends st'.cache cache →
      ∃ cache', processLine resolveFont fontSize wrapWidth lineClamp (st.withCache cache) lineText =
          .ok (st'.withCache cache') ∧
        Sound cache' ∧ Extends cache cache' := by
  obtain ⟨line, htake, hstep⟩ := bind_eq_ok.mp hstep
  obtain ⟨mid, layout, hlayout, hkept⟩ := h.layoutWrappedLine lineText fontSize line.fontRuns
    wrapWidth (lineClamp.map (fun max => max - st.wrappedLines))
  rw [hlayout, ok_bind] at hstep
  obtain ⟨runs, hskip, hstep⟩ := bind_eq_ok.mp hstep
  cases hstep
  refine ⟨⟨⟨layout, line.decorationRuns, lineText, line.fontRuns⟩, hkept.sound, hkept.keeps, rfl,
    ?_⟩, ?_⟩
  · intro other hother
    rw [mem_singleton.mp hother]
    exact hkept.width
  · intro cache hsound hext
    obtain ⟨cache', layout', hlayout', hkept'⟩ := hsound.layoutWrappedLine lineText fontSize
      line.fontRuns wrapWidth (lineClamp.map (fun max => max - st.wrappedLines))
    -- the layout of the line is still there
    have hsame : layout = layout' := hkept'.again layout (hext _ _ hkept.found)
    refine ⟨cache', ?_, hkept'.sound, hkept'.keeps⟩
    unfold processLine Shaping.withCache
    simp only [htake, hlayout', hskip, ok_bind, hsame]

/-- By induction on the lines. -/
theorem foldlM_processLine_shaped {st st' : Shaping X C F} (h : Sound st.cache)
    (lines : List (List Char))
    (hrun : lines.foldlM (processLine resolveFont fontSize wrapWidth lineClamp) st = .ok st') :
    (∃ shaped, shaped.length = lines.length ∧ Shaped wrapWidth st st' shaped) ∧
    ∀ cache, Sound cache → Extends st'.cache cache →
      ∃ cache', lines.foldlM (processLine resolveFont fontSize wrapWidth lineClamp)
          (st.withCache cache) = .ok (st'.withCache cache') ∧
        Sound cache' ∧ Extends cache cache' := by
  induction lines generalizing st with
  | nil =>
    cases hrun
    refine ⟨⟨[], rfl, h, Extends.refl _, (append_nil _).symm, ?_⟩, ?_⟩
    · intro line hline
      cases hline
    · intro cache hsound _
      exact ⟨cache, rfl, hsound, LineLayoutCache.Extends.refl cache⟩
  | cons lineText rest ih =>
    obtain ⟨next, hstep, hrest⟩ := bind_eq_ok.mp hrun
    obtain ⟨⟨line, hfirst⟩, hagain⟩ := processLine_shaped h hstep
    obtain ⟨⟨shaped, hlength, hmore⟩, hagain'⟩ := ih hfirst.sound hrest
    refine ⟨⟨line :: shaped, ?_, hmore.sound, hfirst.keeps.trans hmore.keeps, ?_, ?_⟩, ?_⟩
    · rw [length_cons, length_cons, hlength]
    · rw [hmore.lines, hfirst.lines, append_assoc]
      rfl
    · intro other hother
      rcases mem_cons.mp hother with rfl | hother
      · exact hfirst.widths other (mem_singleton_self other)
      · exact hmore.widths other hother
    · intro cache hsound hext
      obtain ⟨mid, hstep', hsound', hkeeps'⟩ := hagain cache hsound (hmore.keeps.trans hext)
      obtain ⟨cache', hrest', hsound'', hkeeps''⟩ := hagain' mid hsound' (hext.trans hkeeps')
      refine ⟨cache', ?_, hsound'', hkeeps'.trans hkeeps''⟩
      rw [foldlM_cons, hstep']
      exact hrest'

/-! ### Section 3: A text -/

variable {cache cache' : LineLayoutCache X} {text : List Char} {runs : List (TextRun X C F)}
variable {lines : List (WrappedLine X C)}

/-- What is shaped is kept, and has the width that it was shaped for. -/
theorem shapeText_kept (h : Sound cache)
    (hshape : shapeText cache resolveFont text fontSize runs wrapWidth lineClamp =
      .ok (cache', lines)) :
    Sound cache' ∧ Extends cache cache' ∧ lines ≠ [] ∧
      ∀ line ∈ lines, line.layout.wrapWidth = wrapWidth := by
  obtain ⟨st, hrun, hst⟩ := bind_eq_ok.mp hshape
  cases hst
  obtain ⟨⟨shaped, hlength, hshaped⟩, _⟩ := foldlM_processLine_shaped h _ hrun
  have hlines := hshaped.lines
  rw [nil_append] at hlines
  refine ⟨hshaped.sound, hshaped.keeps, ?_, ?_⟩
  · rw [hlines]
    intro hnil
    rw [hnil, length_nil] at hlength
    exact splitOn_ne_nil '\n' text (length_eq_zero_iff.mp hlength.symm)
  · rw [hlines]
    exact hshaped.widths

/-- **The same lines are shaped again.** -/
theorem shapeText_again (h : Sound cache)
    (hshape : shapeText cache resolveFont text fontSize runs wrapWidth lineClamp =
      .ok (cache', lines)) {later : LineLayoutCache X} (hlater : Sound later)
    (hext : Extends cache' later) :
    ∃ cache'', shapeText later resolveFont text fontSize runs wrapWidth lineClamp =
      .ok (cache'', lines) := by
  obtain ⟨st, hrun, hst⟩ := bind_eq_ok.mp hshape
  cases hst
  obtain ⟨cache'', hagain, _⟩ := (foldlM_processLine_shaped h _ hrun).2 later hlater hext
  refine ⟨cache'', ?_⟩
  unfold shapeText
  rw [show (⟨later, runs.filter (fun run => 0 < run.len), 0, []⟩ : Shaping X C F) =
    Shaping.withCache ⟨cache, runs.filter (fun run => 0 < run.len), 0, []⟩ later from rfl, hagain]
  rfl

end WindowTextSystem

end Gpui
