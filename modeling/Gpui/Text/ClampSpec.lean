import Gpui.Text.ShapeTextSpec

/-! # The limit on the number of lines

    What a line may be wrapped to is the limit less the number of wraps before it.  A line
    that was ended by a newline is a line too, but it is not counted.

    * `wrapsAlone` is how often a line would be wrapped if it were the only one.
    * **`clamp_bounds_iff`**: the limit holds iff it holds with every line by itself. -/

namespace Gpui

open List

namespace WindowTextSystem

open LineLayoutCache (Holds GoodLine scratch)
open LineLayout (allowedBoundaries)

variable {X C F : Type} [DecidableEq X] [DecidableEq C] [Field X] [LinearOrder X]

/-- The lines that are displayed. -/
def visualLines (lines : List (WrappedLine X C)) : Nat :=
  (lines.map (fun line => line.layout.wrapBoundaries.length + 1)).sum

/-- How often a line is wrapped by itself: what the cache has of it, or what it needs as far
    as the limit allows it. -/
def wrapsAlone (cache : LineLayoutCache X) (maxLines : Nat) (key : CacheKey X) : Nat :=
  match cache.wrappedFor key with
  | some layout => layout.wrapBoundaries.length
  | none =>
      match scratch cache.platformTextSystem key none with
      | .ok full => min (maxLines - 1) full.length
      | .error _ => 0

/-- What the lines of a text are laid out by: their texts and the fonts of their runs. -/
def lineKeys (resolveFont : F → Nat) (fontSize : X) (wrapWidth : Option X) :
    List (TextRun X C F) → List (List Char) → Run (List (CacheKey X))
  | _, [] => .ok []
  | runs, lineText :: rest => do
      let line ← takeRuns resolveFont (utf8Len lineText) [] [] runs
      let runs ← skipNewline line.runs
      let keys ← lineKeys resolveFont fontSize wrapWidth runs rest
      .ok (⟨lineText, fontSize, line.fontRuns, wrapWidth, none⟩ :: keys)

/-! ### Section 1: One line -/

variable {resolveFont : F → Nat} {fontSize : X} {wrapWidth : Option X} {maxLines : Nat}
variable {alone : CacheKey X → Nat}

/-- What the cache finds is not wrapped more often than the lines by themselves. -/
structure Bounded (platform : PlatformTextSystem X) (maxLines : Nat) (alone : CacheKey X → Nat)
    (cache : LineLayoutCache X) : Prop where
  samePlatform : cache.platformTextSystem = platform
  lines : Holds cache.previousFrame.lines cache.currentFrame.lines (GoodLine platform)
  found : ∀ key layout, cache.wrappedFor key = some layout →
    layout.wrapBoundaries.length ≤ alone key
  missing : ∀ key full, cache.wrappedFor key = none → scratch platform key none = .ok full →
    alone key = min (maxLines - 1) full.length

/-- What the cache finds is wrapped as the lines by themselves are. -/
def Matches (alone : CacheKey X → Nat) (cache : LineLayoutCache X) : Prop :=
  ∀ key layout, cache.wrappedFor key = some layout → layout.wrapBoundaries.length = alone key

variable {platform : PlatformTextSystem X}

/-- What a line is laid out to, `wraps` wraps after the first one. -/
structure LaidOut (platform : PlatformTextSystem X) (maxLines wraps : Nat)
    (alone : CacheKey X → Nat) (key : CacheKey X) (cache cache' : LineLayoutCache X)
    (count : Nat) : Prop where
  bounded : Bounded platform maxLines alone cache'
  le : count ≤ alone key
  same : Matches alone cache → count = alone key ∧ Matches alone cache' ∨
    maxLines - 1 ≤ wraps + count ∧ 2 ≤ maxLines ∧ 1 ≤ wraps

omit [DecidableEq X] [DecidableEq C] in
theorem layoutWrappedLine_laidOut {cache : LineLayoutCache X}
    (h : Bounded platform maxLines alone cache) (fontSize : X) (wrapWidth : Option X)
    (text : List Char) (runs : List FontRun) (wraps : Nat) :
    ∃ cache' layout,
      cache.layoutWrappedLine text fontSize runs wrapWidth (some (maxLines - wraps)) =
        .ok (cache', layout) ∧
      LaidOut platform maxLines wraps alone ⟨text, fontSize, runs, wrapWidth, none⟩ cache cache'
        layout.wrapBoundaries.length := by
  obtain ⟨rfl, hlines, hfound, hmissing⟩ := h
  obtain ⟨cache', layout, hlayout, hplatform, hlines', hwrapped, hcases⟩ :=
    LineLayoutCache.layoutWrappedLine_spec text fontSize runs wrapWidth
      (some (maxLines - wraps)) hlines
  refine ⟨cache', layout, hlayout, ?_⟩
  generalize hkey : (⟨text, fontSize, runs, wrapWidth, none⟩ : CacheKey X) = key at *
  have hle : layout.wrapBoundaries.length ≤ alone key := by
    rcases hcases with hhit | ⟨hmiss, hscratch⟩
    · exact hfound key layout hhit
    · obtain ⟨full, hfull⟩ := LineLayoutCache.scratch_spec cache.platformTextSystem key
      have hnone := hfull none
      rw [allowedBoundaries, take_length] at hnone
      rw [hfull, Except.ok.injEq] at hscratch
      rw [hmissing key full hmiss hnone, ← hscratch, LineLayoutCache.length_take_allowed]
      show min (maxLines - wraps - 1) full.length ≤ min (maxLines - 1) full.length
      omega
  have hbounded : Bounded cache.platformTextSystem maxLines alone cache' := by
    refine ⟨hplatform, hlines', ?_, ?_⟩
    · intro other found hother
      rw [hwrapped] at hother
      split at hother
      · next heq =>
        cases hother
        rw [heq]
        exact hle
      · exact hfound other found hother
    · intro other full hother
      rw [hwrapped] at hother
      split at hother
      · cases hother
      · exact hmissing other full hother
  have hmatches : layout.wrapBoundaries.length = alone key → Matches alone cache →
      Matches alone cache' := by
    intro hsame hmatches other found hother
    rw [hwrapped] at hother
    split at hother
    · next heq =>
      cases hother
      rw [heq]
      exact hsame
    · exact hmatches other found hother
  refine ⟨hbounded, hle, ?_⟩
  intro hmatched
  rcases hcases with hhit | ⟨hmiss, hscratch⟩
  · have hsame := hmatched key layout hhit
    exact Or.inl ⟨hsame, hmatches hsame hmatched⟩
  · obtain ⟨full, hfull⟩ := LineLayoutCache.scratch_spec cache.platformTextSystem key
    have hnone := hfull none
    rw [allowedBoundaries, take_length] at hnone
    have halone := hmissing key full hmiss hnone
    have hcount : layout.wrapBoundaries.length = min (maxLines - wraps - 1) full.length := by
      rw [hfull, Except.ok.injEq] at hscratch
      rw [← hscratch, LineLayoutCache.length_take_allowed]
      rfl
    by_cases hsame : layout.wrapBoundaries.length = alone key
    · exact Or.inl ⟨hsame, hmatches hsame hmatched⟩
    · -- the line got what was left of the limit, and would take more
      right
      rw [hcount, halone] at hsame
      rw [hcount]
      omega

/-! ### Section 2: All lines -/

/-- By induction on the lines: their wraps are at most those by themselves, and the same
    until the limit is used up. -/
theorem foldlM_processLine_counts {st st' : Shaping X C F}
    (h : Bounded platform maxLines alone st.cache) (lines : List (List Char))
    (hrun : lines.foldlM (processLine resolveFont fontSize wrapWidth (some maxLines)) st =
      .ok st') :
    ∃ keys shaped, lineKeys resolveFont fontSize wrapWidth st.runs lines = .ok keys ∧
      st'.lines = st.lines ++ shaped ∧ shaped.length = lines.length ∧
      (shaped.map (fun line => line.layout.wrapBoundaries.length)).sum ≤ (keys.map alone).sum ∧
      (Matches alone st.cache →
        (shaped.map (fun line => line.layout.wrapBoundaries.length)).sum = (keys.map alone).sum ∨
        maxLines - 1 ≤ st.wrappedLines +
          (shaped.map (fun line => line.layout.wrapBoundaries.length)).sum ∧
        2 ≤ maxLines ∧ (2 ≤ lines.length ∨ 1 ≤ st.wrappedLines ∧ 1 ≤ lines.length)) := by
  induction lines generalizing st with
  | nil =>
    cases hrun
    exact ⟨[], [], rfl, (append_nil _).symm, rfl, Nat.le_refl _, fun _ => Or.inl rfl⟩
  | cons lineText rest ih =>
    obtain ⟨next, hstep, hrest⟩ := Exec.bind_eq_ok.mp hrun
    obtain ⟨line, htake, hstep⟩ := Exec.bind_eq_ok.mp hstep
    obtain ⟨cache', layout, hlayout, hlaid⟩ := 
      layoutWrappedLine_laidOut h fontSize wrapWidth lineText line.fontRuns st.wrappedLines
    rw [Option.map_some, hlayout, Exec.ok_bind] at hstep
    obtain ⟨runs, hskip, hstep⟩ := Exec.bind_eq_ok.mp hstep
    cases hstep
    obtain ⟨keys, shaped, hkeys, hlines, hlength, hle, hsame⟩ := ih hlaid.bounded hrest
    dsimp only at hkeys hlines hsame
    refine ⟨⟨lineText, fontSize, line.fontRuns, wrapWidth, none⟩ :: keys,
      ⟨layout, line.decorationRuns, lineText, line.fontRuns⟩ :: shaped, ?_, ?_, ?_, ?_, ?_⟩
    · rw [lineKeys]
      simp only [htake, hskip, hkeys, Exec.ok_bind]
    · rw [hlines, append_assoc]
      rfl
    · rw [length_cons, length_cons, hlength]
    · rw [map_cons, map_cons, sum_cons, sum_cons]
      exact Nat.add_le_add hlaid.le hle
    · intro hmatches
      simp only [map_cons, sum_cons, length_cons]
      rcases hlaid.same hmatches with ⟨heq, hmatches'⟩ | ⟨hused, htwo, hwraps⟩
      · rcases hsame hmatches' with hall | ⟨hused, htwo, hlines⟩
        · left
          omega
        · right
          omega
      · right
        omega

/-! ### Section 3: The result -/

omit [DecidableEq X] [DecidableEq C] [Field X] [LinearOrder X] in
theorem visualLines_eq (lines : List (WrappedLine X C)) :
    visualLines lines =
      (lines.map (fun line => line.layout.wrapBoundaries.length)).sum + lines.length := by
  unfold visualLines
  rw [sum_map_add, map_const', sum_replicate]
  simp

/-- **The limit on the lines holds iff it holds with every line by itself**: the wraps of
    each, limited as if there were no other, with one line for every newline and one more. -/
theorem clamp_bounds_iff (platform : PlatformTextSystem X)
    (ops : List (LineLayoutCache.Op X)) (session : LineLayoutCache.Session X)
    (hsession : LineLayoutCache.run ⟨.new platform, []⟩ ops = .ok session)
    (resolveFont : F → Nat) (text : List Char) (fontSize : X) (runs : List (TextRun X C F))
    (wrapWidth : Option X) (maxLines : Nat) (cache : LineLayoutCache X)
    (lines : List (WrappedLine X C))
    (hshape : shapeText session.cache resolveFont text fontSize runs wrapWidth (some maxLines) =
      .ok (cache, lines)) :
    visualLines lines ≤ max maxLines (text.splitOn '\n').length ↔
      ∃ keys, lineKeys resolveFont fontSize wrapWidth
          (runs.filter (fun run => 0 < run.len)) (text.splitOn '\n') = .ok keys ∧
        (keys.map (wrapsAlone session.cache maxLines)).sum + (text.splitOn '\n').length ≤
          max maxLines (text.splitOn '\n').length := by
  have hinv := (LineLayoutCache.inv_new platform).run hsession
  have hbounded : Bounded platform maxLines (wrapsAlone session.cache maxLines)
      session.cache := by
    refine ⟨hinv.samePlatform, hinv.lines, ?_, ?_⟩
    · intro key layout hfound
      unfold wrapsAlone
      rw [hfound]
    · intro key full hmissing hfull
      unfold wrapsAlone
      rw [hmissing]
      dsimp only
      rw [hinv.samePlatform, hfull]
  have hmatches : Matches (wrapsAlone session.cache maxLines) session.cache := by
    intro key layout hfound
    unfold wrapsAlone
    rw [hfound]
  unfold shapeText at hshape
  obtain ⟨st, hrun, hst⟩ := Exec.bind_eq_ok.mp hshape
  cases hst
  obtain ⟨keys, shaped, hkeys, hlines, hlength, hle, hsame⟩ :=
    foldlM_processLine_counts hbounded (text.splitOn '\n') hrun
  dsimp only at hkeys hlines hsame
  rw [nil_append] at hlines
  rw [visualLines_eq, hlines, hlength]
  have hsplit := hsame hmatches
  constructor
  · intro hbound
    refine ⟨keys, hkeys, ?_⟩
    omega
  · intro hbound
    obtain ⟨keys', hkeys', hbound⟩ := hbound
    rw [hkeys] at hkeys'
    cases hkeys'
    omega

theorem shapeText_three_lines :
    (shapeText (.new LineLayoutCache.platformABC) id ['a', 'b', 'c', '\n', 'x'] 1
      ([⟨⟨0, none, none, none⟩, 5, 7⟩] : List (TextRun ℚ Nat Nat)) (some 3) (some 2)).map
        (fun r => visualLines r.2) = .ok 3 := by
  decide +kernel

/-- A line that is wrapped once, and one that is not. -/
theorem clamp_bounds_iff_wrapped :
    ∃ cache lines,
      shapeText (.new LineLayoutCache.platformABC) id ['a', 'b', 'c', '\n', 'x'] 1
        ([⟨⟨0, none, none, none⟩, 5, 7⟩] : List (TextRun ℚ Nat Nat)) (some 3) (some 2) =
          .ok (cache, lines) ∧
      (visualLines lines ≤ max 2 (['a', 'b', 'c', '\n', 'x'].splitOn '\n').length ↔
        ∃ keys, lineKeys id (1 : ℚ) (some 3)
          (([⟨⟨0, none, none, none⟩, 5, 7⟩] : List (TextRun ℚ Nat Nat)).filter
            (fun run => 0 < run.len)) (['a', 'b', 'c', '\n', 'x'].splitOn '\n') = .ok keys ∧
        (keys.map (wrapsAlone (.new LineLayoutCache.platformABC) 2)).sum +
          (['a', 'b', 'c', '\n', 'x'].splitOn '\n').length ≤
            max 2 (['a', 'b', 'c', '\n', 'x'].splitOn '\n').length) := by
  obtain ⟨⟨cache, lines⟩, hshape, _⟩ := Exec.map_eq_ok.mp shapeText_three_lines
  exact ⟨cache, lines, hshape, clamp_bounds_iff LineLayoutCache.platformABC []
    ⟨.new LineLayoutCache.platformABC, []⟩ rfl id _ 1 _ (some 3) 2 cache lines hshape⟩

/-- The same text is displayed in three lines, where two are allowed: the newline is not
    counted. -/
theorem clamp_exceeded :
    ¬ ∀ (text : List Char) (runs : List (TextRun ℚ Nat Nat)) (wrapWidth : Option ℚ)
      (maxLines : Nat) (cache : LineLayoutCache ℚ) (lines : List (WrappedLine ℚ Nat)),
      (runs.map TextRun.len).sum = utf8Len text → 1 ≤ maxLines →
      shapeText (.new LineLayoutCache.platformABC) id text 1 runs wrapWidth (some maxLines) =
        .ok (cache, lines) →
      visualLines lines ≤ max maxLines (text.splitOn '\n').length := by
  intro h
  obtain ⟨⟨cache, lines⟩, hshape, hthree⟩ := Exec.map_eq_ok.mp shapeText_three_lines
  have hbound := h _ _ _ _ cache lines (by decide) (by decide) hshape
  dsimp only at hthree
  rw [hthree] at hbound
  exact absurd hbound (by decide)

end WindowTextSystem

end Gpui
