import Gpui.Text.LineLayoutCache

/-! # Transparency of the cache of line layouts

    A wrapped layout is found again by its text, size, runs and wrap width.  The limit on
    the number of lines is not part of the key, so a call gets the boundaries of the call
    that computed the layout. -/

namespace Gpui

open List

namespace LineLayoutCache

open LineLayout

variable {X : Type} [Field X] [LinearOrder X]

/-- The wrap boundaries computed without the cache. -/
def scratch (platform : PlatformTextSystem X) (key : CacheKey X) (maxLines : Option Nat) :
    Run (List WrapBoundary) :=
  wrapLayout (shapeLine platform key.text key.fontSize key.runs none) key.text key.wrapWidth
    maxLines

/-- The limit of the last call that computed the layout of a key. -/
def maker (calls : List (Call X)) (key : CacheKey X) : Option (Option Nat) :=
  (calls.find? (fun call => call.key = key ∧ call.hit = false)).map Call.maxLines

/-- Two limits leave the same number of lines of a text. -/
def SameLines (platform : PlatformTextSystem X) (key : CacheKey X) (a b : Option Nat) : Prop :=
  ∀ full, scratch platform key none = .ok full →
    allowedBoundaries a full.length = allowedBoundaries b full.length

/-- Every call returned what it would without the cache. -/
def Transparent (platform : PlatformTextSystem X) (calls : List (Call X)) : Prop :=
  ∀ call ∈ calls, scratch platform call.key call.maxLines = .ok call.wrapBoundaries

/-- Every call that found a layout had a limit that leaves as many lines of the text as
    the limit of the call that computed it. -/
def LimitsAgree (platform : PlatformTextSystem X) (calls : List (Call X)) : Prop :=
  ∀ call before, call :: before <:+ calls → call.hit = true →
    ∀ maxLines, maker before call.key = some maxLines →
      SameLines platform call.key maxLines call.maxLines

/-! ## The layouts in the cache -/

theorem scratch_spec (platform : PlatformTextSystem X) (key : CacheKey X) :
    ∃ full : List WrapBoundary, ∀ maxLines,
      scratch platform key maxLines = .ok (full.take (allowedBoundaries maxLines full.length)) := by
  unfold scratch wrapLayout shapeLine
  cases key.wrapWidth with
  | none => exact ⟨[], fun maxLines => by rw [take_nil]⟩
  | some wrapWidth =>
    exact computeWrapBoundaries_limit wrapWidth
      (platform.index_valid key.text key.fontSize key.runs)

/-- The frames hold no other layouts than those of `good`. -/
def Holds {K V : Type} (previous current : K → Option V) (good : K → V → Prop) : Prop :=
  ∀ key layout, (current key = some layout ∨ previous key = some layout) → good key layout

section holds

variable {K V : Type} {previous current : K → Option V} {good : K → V → Prop}

theorem Holds.swap (h : Holds previous current good) :
    Holds current (fun _ => none) good := by
  intro key layout hfound
  cases hfound with
  | inl hnone => cases hnone
  | inr hcurrent => exact h key layout (Or.inl hcurrent)

variable [DecidableEq K]

theorem Holds.insert (h : Holds previous current good) {key : K} {layout : V}
    (hgood : good key layout) :
    Holds previous (Function.update current key (some layout)) good := by
  intro other found hfound
  by_cases heq : other = key
  · subst heq
    cases hfound with
    | inl hcurrent =>
      rw [Function.update_self] at hcurrent
      cases hcurrent
      exact hgood
    | inr hprevious => exact h other found (Or.inr hprevious)
  · rw [Function.update_of_ne heq] at hfound
    exact h other found hfound

theorem Holds.remove (h : Holds previous current good) (key : K) :
    Holds (Function.update previous key none) current good := by
  intro other found hfound
  by_cases heq : other = key
  · subst heq
    rw [Function.update_self] at hfound
    cases hfound with
    | inl hcurrent => exact h other found (Or.inl hcurrent)
    | inr hnone => cases hnone
  · rw [Function.update_of_ne heq] at hfound
    exact h other found hfound

theorem Holds.moveEntries (keys : List K) (h : Holds previous current good) :
    Holds (LineLayoutCache.moveEntries previous current keys).1
      (LineLayoutCache.moveEntries previous current keys).2 good := by
  induction keys generalizing previous current with
  | nil => exact h
  | cons key rest ih =>
    unfold LineLayoutCache.moveEntries
    cases hkey : previous key with
    | none => exact ih h
    | some layout =>
      -- the entry that moves was in the previous frame
      have hgood := h key layout (Or.inr hkey)
      exact ih ((h.remove key).insert hgood)

end holds

/-! ## What every operation keeps -/

/-- A line layout is that of the platform. -/
def GoodLine (platform : PlatformTextSystem X) (key : CacheKey X) (layout : LineLayout X) : Prop :=
  layout = shapeLine platform key.text key.fontSize key.runs key.forceWidth

/-- A wrapped layout is what the last call that computed one for the key returned. -/
def GoodWrapped (platform : PlatformTextSystem X) (calls : List (Call X)) (key : CacheKey X)
    (layout : WrappedLineLayout X) : Prop :=
  ∃ maxLines, maker calls key = some maxLines ∧
    scratch platform key maxLines = .ok layout.wrapBoundaries

/-- A call returned its own boundaries, or those of the call that made the layout. -/
def Explained (platform : PlatformTextSystem X) (call : Call X) (before : List (Call X)) : Prop :=
  if call.hit then
    ∃ maxLines, maker before call.key = some maxLines ∧
      scratch platform call.key maxLines = .ok call.wrapBoundaries
  else scratch platform call.key call.maxLines = .ok call.wrapBoundaries

structure Inv (platform : PlatformTextSystem X) (session : Session X) : Prop where
  samePlatform : session.cache.platformTextSystem = platform
  lines : Holds session.cache.previousFrame.lines session.cache.currentFrame.lines
    (GoodLine platform)
  wrappedLines : Holds session.cache.previousFrame.wrappedLines
    session.cache.currentFrame.wrappedLines (GoodWrapped platform session.calls)
  calls : ∀ call before, call :: before <:+ session.calls → Explained platform call before

variable {platform : PlatformTextSystem X} {session : Session X}

theorem inv_new (platform : PlatformTextSystem X) : Inv platform ⟨new platform, []⟩ where
  samePlatform := rfl
  lines := by
    intro key layout h
    cases h with
    | inl h => cases h
    | inr h => cases h
  wrappedLines := by
    intro key layout h
    cases h with
    | inl h => cases h
    | inr h => cases h
  calls := by
    intro call before h
    simp at h

variable {cache : LineLayoutCache X} {calls : List (Call X)} {session' : Session X}

/-- The line layouts after `layout_line`, and what it returns; nothing else changes. -/
theorem layoutLine_spec (text : List Char) (fontSize : X)
    (runs : List FontRun) (forceWidth : Option X)
    (hlines : Holds cache.previousFrame.lines cache.currentFrame.lines
      (GoodLine cache.platformTextSystem)) :
    let result := cache.layoutLine text fontSize runs forceWidth
    result.2 = shapeLine cache.platformTextSystem text fontSize runs forceWidth ∧
      result.1.platformTextSystem = cache.platformTextSystem ∧
      Holds result.1.previousFrame.lines result.1.currentFrame.lines
        (GoodLine cache.platformTextSystem) ∧
      result.1.previousFrame.wrappedLines = cache.previousFrame.wrappedLines ∧
      result.1.currentFrame.wrappedLines = cache.currentFrame.wrappedLines := by
  unfold layoutLine
  dsimp only
  cases hcurrent : cache.currentFrame.lines ⟨text, fontSize, runs, none, forceWidth⟩ with
  | some layout =>
    have hgood := hlines _ layout (Or.inl hcurrent)
    exact ⟨hgood, rfl, hlines, rfl, rfl⟩
  | none =>
    have hgood : GoodLine cache.platformTextSystem ⟨text, fontSize, runs, none, forceWidth⟩
        ((cache.previousFrame.lines ⟨text, fontSize, runs, none, forceWidth⟩).getD
          (shapeLine cache.platformTextSystem text fontSize runs forceWidth)) := by
      cases hprevious : cache.previousFrame.lines ⟨text, fontSize, runs, none, forceWidth⟩ with
      | some layout => exact hlines _ layout (Or.inr hprevious)
      | none => rfl
    exact ⟨hgood, rfl, (hlines.remove _).insert hgood, rfl, rfl⟩

/-- The wrapped layout that a key finds. -/
def wrappedFor (cache : LineLayoutCache X) (key : CacheKey X) : Option (WrappedLineLayout X) :=
  (cache.currentFrame.wrappedLines key).or (cache.previousFrame.wrappedLines key)

/-- `layout_wrapped_line` returns what its key finds, or what is computed, and then the key
    finds it.  The other keys find what they found. -/
theorem layoutWrappedLine_spec (text : List Char) (fontSize : X)
    (runs : List FontRun) (wrapWidth : Option X) (maxLines : Option Nat)
    (hlines : Holds cache.previousFrame.lines cache.currentFrame.lines
      (GoodLine cache.platformTextSystem)) :
    let key : CacheKey X := ⟨text, fontSize, runs, wrapWidth, none⟩
    ∃ cache' layout,
      cache.layoutWrappedLine text fontSize runs wrapWidth maxLines = .ok (cache', layout) ∧
      cache'.platformTextSystem = cache.platformTextSystem ∧
      Holds cache'.previousFrame.lines cache'.currentFrame.lines
        (GoodLine cache.platformTextSystem) ∧
      (∀ other, cache'.wrappedFor other =
        if other = key then some layout else cache.wrappedFor other) ∧
      (cache.wrappedFor key = some layout ∨ cache.wrappedFor key = none ∧
        scratch cache.platformTextSystem key maxLines = .ok layout.wrapBoundaries) := by
  intro key
  unfold layoutWrappedLine wrappedFor
  dsimp only
  cases hcurrent : cache.currentFrame.wrappedLines key with
  | some layout =>
    refine ⟨cache, layout, rfl, rfl, hlines, ?_, Or.inl rfl⟩
    intro other
    by_cases hother : other = key
    · rw [if_pos hother, hother, hcurrent]
      rfl
    · rw [if_neg hother]
  | none =>
    cases hprevious : cache.previousFrame.wrappedLines key with
    | some layout =>
      refine ⟨_, layout, rfl, rfl, hlines, ?_, Or.inl rfl⟩
      intro other
      dsimp only
      by_cases hother : other = key
      · rw [if_pos hother, hother, Function.update_self]
        rfl
      · rw [if_neg hother, Function.update_of_ne hother, Function.update_of_ne hother]
    | none =>
      obtain ⟨hunwrapped, hsame, hlines', hpreviousWrapped, hcurrentWrapped⟩ :=
        layoutLine_spec text fontSize runs none hlines
      generalize cache.layoutLine text fontSize runs none = result at *
      obtain ⟨cache', unwrappedLayout⟩ := result
      subst hunwrapped
      obtain ⟨full, hfull⟩ := scratch_spec cache.platformTextSystem key
      have hwrap := hfull maxLines
      unfold scratch at hwrap
      rw [hwrap]
      refine ⟨_, _, rfl, hsame, hlines', ?_, Or.inr ⟨rfl, hfull maxLines⟩⟩
      intro other
      dsimp only
      rw [hpreviousWrapped, hcurrentWrapped]
      by_cases hother : other = key
      · rw [if_pos hother, hother, Function.update_self]
        rfl
      · rw [if_neg hother, Function.update_of_ne hother]

section

omit [Field X]

theorem maker_hit {call : Call X} (h : call.hit = true)
    (key : CacheKey X) : maker (call :: calls) key = maker calls key := by
  unfold maker
  rw [find?_cons_of_neg (by simp [h])]

theorem maker_other {call : Call X} {key : CacheKey X}
    (h : call.key ≠ key) : maker (call :: calls) key = maker calls key := by
  unfold maker
  rw [find?_cons_of_neg (by simp [h])]

theorem maker_miss {call : Call X} (h : call.hit = false) :
    maker (call :: calls) call.key = some call.maxLines := by
  unfold maker
  rw [find?_cons_of_pos (by simp [h])]
  rfl

end

section

variable (h : Inv platform session)
include h

/-- A call and an explanation for it make the next session. -/
theorem Inv.call {call : Call X} (hplatform : cache.platformTextSystem = platform)
    (hlines : Holds cache.previousFrame.lines cache.currentFrame.lines (GoodLine platform))
    (hwrapped : Holds cache.previousFrame.wrappedLines cache.currentFrame.wrappedLines
      (GoodWrapped platform (call :: session.calls)))
    (hcall : Explained platform call session.calls) :
    Inv platform ⟨cache, call :: session.calls⟩ where
  samePlatform := hplatform
  lines := hlines
  wrappedLines := hwrapped
  calls := by
    intro other before hsuffix
    cases suffix_cons_iff.1 hsuffix with
    | inl heq =>
      cases heq
      exact hcall
    | inr hold => exact h.calls other before hold

/-- A layout that is found stays good, and explains the call. -/
theorem Inv.hit {key : CacheKey X} {layout : WrappedLineLayout X}
    (hgood : GoodWrapped platform session.calls key layout) (maxLines : Option Nat) :
    let call : Call X := ⟨key, maxLines, true, layout.wrapBoundaries⟩
    GoodWrapped platform (call :: session.calls) key layout ∧
      Holds session.cache.previousFrame.wrappedLines session.cache.currentFrame.wrappedLines
        (GoodWrapped platform (call :: session.calls)) ∧
      Explained platform call session.calls := by
  intro call
  have hkept : ∀ key layout, GoodWrapped platform session.calls key layout →
      GoodWrapped platform (call :: session.calls) key layout := by
    intro key layout hgood
    unfold GoodWrapped
    rw [maker_hit rfl]
    exact hgood
  refine ⟨hkept key layout hgood, ?_, ?_⟩
  · intro other found hfound
    exact hkept other found (h.wrappedLines other found hfound)
  · unfold Explained
    exact hgood

theorem Inv.layoutWrappedLine (text : List Char) (fontSize : X) (runs : List FontRun)
    (wrapWidth : Option X) (maxLines : Option Nat)
    (hstep : step session (.layoutWrappedLine text fontSize runs wrapWidth maxLines)
      = .ok session') : Inv platform session' := by
  have hplatform := h.samePlatform
  subst hplatform
  unfold step LineLayoutCache.layoutWrappedLine isCached at hstep
  cases hcurrent : session.cache.currentFrame.wrappedLines
      ⟨text, fontSize, runs, wrapWidth, none⟩ with
  | some layout =>
    simp only [hcurrent, Exec.ok_bind, Option.isSome_some, Bool.true_or] at hstep
    cases hstep
    obtain ⟨_, hwrapped, hcall⟩ := h.hit (h.wrappedLines _ layout (Or.inl hcurrent)) maxLines
    exact h.call rfl h.lines hwrapped hcall
  | none =>
    cases hprevious : session.cache.previousFrame.wrappedLines
        ⟨text, fontSize, runs, wrapWidth, none⟩ with
    | some layout =>
      simp only [hcurrent, hprevious, Exec.ok_bind, Option.isSome_some, Bool.or_true] at hstep
      cases hstep
      obtain ⟨hgood, hwrapped, hcall⟩ :=
        h.hit (h.wrappedLines _ layout (Or.inr hprevious)) maxLines
      exact h.call rfl h.lines ((hwrapped.remove _).insert hgood) hcall
    | none =>
      simp only [hcurrent, hprevious, Option.isSome_none, Bool.or_false] at hstep
      obtain ⟨hunwrapped, hsame, hlines, hpreviousWrapped, hcurrentWrapped⟩ :=
        layoutLine_spec text fontSize runs none h.lines
      generalize session.cache.layoutLine text fontSize runs none = result at *
      obtain ⟨cache, unwrappedLayout⟩ := result
      subst hunwrapped
      cases hwrap : wrapLayout (shapeLine session.cache.platformTextSystem text fontSize runs none)
          text wrapWidth maxLines with
      | error e =>
        rw [hwrap] at hstep
        cases hstep
      | ok wrapBoundaries =>
        rw [hwrap] at hstep
        cases hstep
        refine Inv.call h hsame hlines ?_ hwrap
        · -- no layout of this key is left that an earlier call made
          have hothers : Holds cache.previousFrame.wrappedLines cache.currentFrame.wrappedLines
              (GoodWrapped session.cache.platformTextSystem
                (⟨⟨text, fontSize, runs, wrapWidth, none⟩, maxLines, false, wrapBoundaries⟩
                  :: session.calls)) := by
            rw [hpreviousWrapped, hcurrentWrapped]
            intro key layout hfound
            have hne : CacheKey.mk text fontSize runs wrapWidth none ≠ key := by
              intro heq
              subst heq
              cases hfound with
              | inl hfound => rw [hcurrent] at hfound; cases hfound
              | inr hfound => rw [hprevious] at hfound; cases hfound
            unfold GoodWrapped
            rw [maker_other hne]
            exact h.wrappedLines key layout hfound
          exact hothers.insert ⟨maxLines, maker_miss rfl, hwrap⟩

theorem Inv.step {op : Op X} (hstep : step session op = .ok session') : Inv platform session' := by
  cases op with
  | layoutWrappedLine text fontSize runs wrapWidth maxLines =>
    exact h.layoutWrappedLine text fontSize runs wrapWidth maxLines hstep
  | layoutLine text fontSize runs forceWidth =>
    have hplatform := h.samePlatform
    subst hplatform
    cases hstep
    obtain ⟨_, hsame, hlines, hprevious, hcurrent⟩ :=
      layoutLine_spec text fontSize runs forceWidth h.lines
    constructor
    · exact hsame
    · exact hlines
    · change Holds (session.cache.layoutLine text fontSize runs forceWidth).1.previousFrame.wrappedLines
        (session.cache.layoutLine text fontSize runs forceWidth).1.currentFrame.wrappedLines _
      rw [hprevious, hcurrent]
      exact h.wrappedLines
    · exact h.calls
  | reuseLayouts first last =>
    unfold LineLayoutCache.step reuseLayouts at hstep
    dsimp only at hstep
    cases hlines : slice session.cache.previousFrame.usedLines first.linesIndex
        last.linesIndex with
    | error e =>
      rw [hlines] at hstep
      cases hstep
    | ok usedLines =>
      cases hwrapped : slice session.cache.previousFrame.usedWrappedLines
          first.wrappedLinesIndex last.wrappedLinesIndex with
      | error e =>
        rw [hlines, hwrapped] at hstep
        cases hstep
      | ok usedWrappedLines =>
        rw [hlines, hwrapped] at hstep
        cases hstep
        exact ⟨h.samePlatform, h.lines.moveEntries usedLines,
          h.wrappedLines.moveEntries usedWrappedLines, h.calls⟩
  | truncateLayouts index =>
    cases hstep
    exact ⟨h.samePlatform, h.lines, h.wrappedLines, h.calls⟩
  | finishFrame =>
    cases hstep
    exact ⟨h.samePlatform, h.lines.swap, h.wrappedLines.swap, h.calls⟩

theorem Inv.run {ops : List (Op X)} (hrun : run session ops = .ok session') :
    Inv platform session' := by
  induction ops generalizing session with
  | nil =>
    cases hrun
    exact h
  | cons op rest ih =>
    unfold LineLayoutCache.run at hrun
    cases hstep : LineLayoutCache.step session op with
    | error e =>
      rw [hstep] at hrun
      cases hrun
    | ok next =>
      rw [hstep] at hrun
      exact ih (h.step hstep) hrun

end

/-! ## When the cache is transparent -/

theorem length_take_allowed (maxLines : Option Nat) (full : List WrapBoundary) :
    (full.take (allowedBoundaries maxLines full.length)).length
      = allowedBoundaries maxLines full.length := by
  rw [length_take]
  cases maxLines with
  | none => exact Nat.min_self _
  | some maxLines => exact Nat.min_eq_left (Nat.min_le_right _ _)

theorem sameLines_iff (platform : PlatformTextSystem X) (key : CacheKey X) (a b : Option Nat) :
    SameLines platform key a b ↔ scratch platform key a = scratch platform key b := by
  obtain ⟨full, hfull⟩ := scratch_spec platform key
  have hnone : scratch platform key none = .ok full := by
    rw [hfull none, allowedBoundaries, take_length]
  constructor
  · intro hsame
    rw [hfull a, hfull b, hsame full hnone]
  · intro heq other hother
    obtain rfl : full = other := by
      rw [hnone] at hother
      cases hother
      rfl
    rw [hfull a, hfull b] at heq
    have hlength := congrArg List.length (Except.ok.inj heq)
    rwa [length_take_allowed, length_take_allowed] at hlength

/-- The cache is transparent in exactly the runs in which every call that finds a layout
    has a limit on the lines that leaves as many lines of the text as the limit of the
    call that made it. -/
theorem transparent_iff (platform : PlatformTextSystem X) (ops : List (Op X))
    (session : Session X) (h : run ⟨new platform, []⟩ ops = .ok session) :
    Transparent platform session.calls ↔ LimitsAgree platform session.calls := by
  have hinv := (inv_new platform).run h
  constructor
  · intro htransparent call before hsuffix hhit maxLines hmaker
    rw [sameLines_iff]
    have hown := htransparent call (hsuffix.subset mem_cons_self)
    have hexplained := hinv.calls call before hsuffix
    unfold Explained at hexplained
    rw [if_pos hhit] at hexplained
    obtain ⟨made, hmade, hboundaries⟩ := hexplained
    obtain rfl : made = maxLines := Option.some.inj (hmade.symm.trans hmaker)
    rw [hboundaries, hown]
  · intro hagree call hmem
    obtain ⟨after, before, hcalls⟩ := append_of_mem hmem
    have hsuffix : call :: before <:+ session.calls := ⟨after, hcalls.symm⟩
    have hexplained := hinv.calls call before hsuffix
    unfold Explained at hexplained
    split at hexplained
    · rename_i hhit
      obtain ⟨made, hmade, hboundaries⟩ := hexplained
      have hsame := hagree call before hsuffix hhit made hmade
      rw [sameLines_iff] at hsame
      rw [← hsame, hboundaries]
    · exact hexplained

/-! ### A platform that shapes one line -/

/-- Three characters, each two pixels wide. -/
def shapedABC : LineLayout ℚ where
  fontSize := 1
  width := 6
  ascent := 1
  descent := 1
  runs := [⟨0, [⟨0, 0, 0, 0, false⟩, ⟨1, 2, 0, 1, false⟩, ⟨2, 4, 0, 2, false⟩]⟩]
  len := 3

/-- A platform without a font for other lines. -/
def platformABC : PlatformTextSystem ℚ where
  layoutLine := fun text fontSize _ =>
    if text = ['a', 'b', 'c'] then shapedABC else ⟨fontSize, 0, 0, 0, [], text.length⟩
  index_valid := by
    intro text fontSize runs glyph hglyph
    by_cases htext : text = ['a', 'b', 'c']
    · subst htext
      simp only [if_true, shapedABC, glyphs, List.zipIdx_cons, List.zipIdx_nil, List.map_cons,
        List.map_nil, List.flatMap_cons, List.flatMap_nil, List.append_nil, List.mem_cons,
        List.not_mem_nil, or_false] at hglyph
      rcases hglyph with rfl | rfl | rfl
      · exact ⟨'a', rfl⟩
      · exact ⟨'b', rfl⟩
      · exact ⟨'c', rfl⟩
    · simp [htext, glyphs] at hglyph

/-- The same line, first without a limit on the lines and then with one. -/
def clampAfterwards : List (Op ℚ) :=
  [.layoutWrappedLine ['a', 'b', 'c'] 1 [] (some 3) none,
    .layoutWrappedLine ['a', 'b', 'c'] 1 [] (some 3) (some 1)]

/-- What the run of `clampAfterwards` records: the second call finds the layout of the
    first. -/
theorem run_clampAfterwards :
    ∃ session, run ⟨new platformABC, []⟩ clampAfterwards = .ok session ∧ session.calls =
      [⟨⟨['a', 'b', 'c'], 1, [], some 3, none⟩, some 1, true, [⟨0, 1⟩, ⟨0, 2⟩]⟩,
        ⟨⟨['a', 'b', 'c'], 1, [], some 3, none⟩, none, false, [⟨0, 1⟩, ⟨0, 2⟩]⟩] := by
  rw [← Exec.map_eq_ok]
  decide +kernel

theorem transparent_iff_clampAfterwards :
    ∃ session, run ⟨new platformABC, []⟩ clampAfterwards = .ok session ∧
      (Transparent platformABC session.calls ↔ LimitsAgree platformABC session.calls) := by
  obtain ⟨session, hrun, _⟩ := run_clampAfterwards
  exact ⟨session, hrun, transparent_iff platformABC clampAfterwards session hrun⟩

/-- The second call returns three lines where one is allowed. -/
theorem clamp_ignored :
    ¬ ∀ (platform : PlatformTextSystem ℚ) (ops : List (Op ℚ)) (session : Session ℚ),
      run ⟨new platform, []⟩ ops = .ok session → Transparent platform session.calls := by
  intro h
  obtain ⟨session, hrun, hcalls⟩ := run_clampAfterwards
  have hscratch : scratch platformABC ⟨['a', 'b', 'c'], 1, [], some 3, none⟩ (some 1)
      = .ok [] := by
    decide +kernel
  have htransparent := h platformABC clampAfterwards session hrun
  rw [hcalls] at htransparent
  have hown := htransparent _ mem_cons_self
  rw [hscratch] at hown
  cases hown

end LineLayoutCache

end Gpui
