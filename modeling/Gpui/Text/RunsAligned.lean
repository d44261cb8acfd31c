import Gpui.Text.CutSpec

/-! # Truncation keeps text and runs aligned

    The runs that are returned are as long as the text that is returned, and every byte that
    stays has the style it had.  The affix has the style of a run at the cut, so there has to
    be a run, and a byte behind the cut. -/

namespace Gpui

open List

namespace LineWrapper

variable {S : Type} {line affix : List Char} {runs : List (TextRun S)}

/-! ### Section 1: Text and runs -/

/-- The runs cover the result.  It is the line, or a part of the line before the affix and a
    part behind it, both with the styles they had. -/
def Aligned (line affix : List Char) (runs : List (TextRun S)) (result : List Char)
    (runs' : List (TextRun S)) : Prop :=
  totalLen runs' = utf8Len result ∧
    (result = line ∧ runs' = runs ∨
      ∃ front removed back, line = front ++ removed ++ back ∧ result = front ++ affix ++ back ∧
        (styles runs').take (utf8Len front) = (styles runs).take (utf8Len front) ∧
        (styles runs').drop (utf8Len (front ++ affix))
          = (styles runs).drop (utf8Len (front ++ removed)))

theorem aligned_same (hlen : totalLen runs = utf8Len line) : Aligned line affix runs line runs :=
  ⟨hlen, .inl ⟨rfl, rfl⟩⟩

/-- What stays of the styles, around an affix of one style. -/
theorem aligned_of_styles {front removed back : List Char} {runs' : List (TextRun S)}
    (hlen : totalLen runs = utf8Len line) (hline : line = front ++ removed ++ back)
    (hstyles : ∃ style, styles runs' = (styles runs).take (utf8Len front) ++
      List.replicate (utf8Len affix) style ++ (styles runs).drop (utf8Len (front ++ removed))) :
    Aligned line affix runs (front ++ affix ++ back) runs' := by
  obtain ⟨style, hstyles⟩ := hstyles
  rw [hline, ← length_styles] at hlen
  have hfront : ((styles runs).take (utf8Len front)).length = utf8Len front := by
    rw [length_take, hlen, utf8Len_append, utf8Len_append]
    omega
  have hfrontAffix : ((styles runs).take (utf8Len front) ++
      List.replicate (utf8Len affix) style).length = utf8Len (front ++ affix) := by
    rw [length_append, hfront, length_replicate, utf8Len_append]
  refine ⟨?_, .inr ⟨front, removed, back, hline, rfl, ?_, ?_⟩⟩
  · rw [← length_styles, hstyles, length_append, hfrontAffix, length_drop, hlen]
    simp only [utf8Len_append]
    omega
  · rw [hstyles, append_assoc, take_append_of_le_length hfront.ge,
      take_of_length_le hfront.le]
  · rw [hstyles, drop_append_of_le_length hfrontAffix.ge,
      drop_of_length_le hfrontAffix.le, nil_append]

/-- A text that is cut behind a part of it, with an affix there. -/
theorem aligned_truncateAtEnd {front rest : List Char} (hne : rest ≠ [])
    (hline : line = front ++ rest) (hlen : totalLen runs = utf8Len line) :
    ∃ result runs', truncateAtEnd line (utf8Len front) affix runs = .ok (result, runs') ∧
      Aligned line affix runs result runs' := by
  have hcut := truncateAtEnd_append front rest affix runs
  rw [← hline] at hcut
  refine ⟨_, _, hcut, ?_⟩
  obtain ⟨dropped, hdropped⟩ := rdropWhile_prefix isTrimmed front
  have hall : line = front.rdropWhile isTrimmed ++ (dropped ++ rest) ++ [] := by
    rw [append_nil, ← append_assoc, hdropped, hline]
  -- something is cut off, so that there is a run at the cut
  have hlt : utf8Len (front.rdropWhile isTrimmed) < totalLen runs := by
    obtain ⟨c, more, rfl⟩ := exists_cons_of_ne_nil hne
    have := c.utf8Size_pos
    rw [hlen, hall]
    simp only [utf8Len_append, utf8Len_cons]
    omega
  obtain ⟨style, hstyles⟩ := styles_cutRuns (utf8Len affix) hlt
  have haligned : Aligned line affix runs (front.rdropWhile isTrimmed ++ affix ++ [])
      (cutRuns (utf8Len affix) (utf8Len (front.rdropWhile isTrimmed)) runs) := by
    refine aligned_of_styles hlen hall ⟨style, hstyles.trans ?_⟩
    have hnone : (styles runs).drop (utf8Len (front.rdropWhile isTrimmed ++ (dropped ++ rest)))
        = [] := by
      refine drop_of_length_le ?_
      rw [length_styles, hlen, hall, append_nil]
    rw [hnone, append_nil]
  rw [append_nil] at haligned
  exact haligned

/-! ### Section 2: One line -/

variable {X : Type} [Field X] [LinearOrder X] [IsStrictOrderedRing X] [FloorRing X]

/-- A line that is truncated keeps its runs; an empty line without runs, cut in the middle to
    a negative width, has none for the affix. -/
theorem truncateLine_aligned (widthForChar : Char → X) (hlen : totalLen runs = utf8Len line)
    (truncateWidth : X) (truncateFrom : TruncateFrom)
    (hsome : truncateFrom = .middle → runs = [] → 0 ≤ truncateWidth ∨ affix = []) :
    ∃ result runs', truncateLine widthForChar line truncateWidth affix runs truncateFrom
        = .ok (result, runs') ∧ Aligned line affix runs result runs' := by
  cases truncateFrom with
  | stop =>
    match truncateLine_stop widthForChar line affix truncateWidth runs with
    | .inl hsame => exact ⟨_, _, hsame, aligned_same hlen⟩
    | .inr ⟨front, c, rest, hline, htruncate, _⟩ =>
      rw [htruncate]
      exact aligned_truncateAtEnd (cons_ne_nil c rest) hline hlen
  | start =>
    match truncateLine_start widthForChar line affix truncateWidth runs with
    | .inl ⟨_, hsame⟩ => exact ⟨_, _, hsame, aligned_same hlen⟩
    | .inr ⟨removed, c, kept, hline, _, htruncate, _⟩ =>
      have hpos := c.utf8Size_pos
      have hall : line = [] ++ (removed ++ [c]) ++ kept := by
        rw [hline]
        simp
      have htotal : totalLen runs = utf8Len (removed ++ [c]) + utf8Len kept := by
        rw [hlen, hall, nil_append, utf8Len_append]
      have hlt : utf8Len kept < totalLen runs := by
        rw [htotal, utf8Len_append, utf8Len_cons]
        omega
      obtain ⟨style, hstyles⟩ := styles_cutRuns_reverse (utf8Len affix) hlt
      have hcut : totalLen runs - utf8Len kept = utf8Len (removed ++ [c]) := by omega
      rw [hcut] at hstyles
      exact ⟨_, _, htruncate, aligned_of_styles hlen hall ⟨style, hstyles⟩⟩
  | middle =>
    match truncateLine_middle widthForChar line affix truncateWidth runs with
    | .inl ⟨_, hsame⟩ => exact ⟨_, _, hsame, aligned_same hlen⟩
    | .inr ⟨hover, front, removed, back, hline, hcut, htruncate, _⟩ =>
      refine ⟨_, _, htruncate, ?_⟩
      by_cases hruns : runs = []
      · -- the line is empty, and so is the affix
        rw [hruns] at hlen ⊢
        have hempty : line = [] := by
          cases line with
          | nil => rfl
          | cons c rest =>
            have := c.utf8Size_pos
            have : (0 : Nat) = c.utf8Size + utf8Len rest := hlen
            omega
        rw [hempty] at hline hover
        obtain ⟨hfront, hback⟩ := append_eq_nil_iff.1 hline.symm
        obtain ⟨hfront, _⟩ := append_eq_nil_iff.1 hfront
        have haffix := (hsome rfl hruns).resolve_left (not_le.2 hover)
        rw [hfront, hback, haffix, hempty]
        exact ⟨rfl, .inl ⟨rfl, rfl⟩⟩
      · have hplace : utf8Len front < totalLen runs ∨ totalLen runs = 0 ∧ runs ≠ [] := by
          match hcut with
          | .inl hempty =>
            rw [hempty] at hlen
            exact .inr ⟨hlen, hruns⟩
          | .inr hlt =>
            rw [hlen]
            exact .inl hlt
        exact aligned_of_styles hlen hline
          (styles_middle affix (utf8Len (front ++ removed)) hplace)

/-! ### Section 3: Wrapped lines -/

omit [IsStrictOrderedRing X] [FloorRing X] [Field X] [LinearOrder X]

/-- An index is the length of a first part of the text. -/
def EndsPart (text : List Char) (ix : Nat) : Prop :=
  ∃ part, part <+: text ∧ utf8Len part = ix

variable {text : List Char}

theorem EndsPart.append {ix : Nat} (h : EndsPart text ix) (more : List Char) :
    EndsPart (text ++ more) ix := by
  obtain ⟨part, hpart, hix⟩ := h
  exact ⟨part, hpart.trans (prefix_append _ _), hix⟩

theorem endsPart_self (text : List Char) : EndsPart text (utf8Len text) :=
  ⟨text, prefix_refl _, rfl⟩

/-- The indices that the loop of `truncate_wrapped_line` has noted. -/
structure Noted (t : Truncating X) (text : List Char) : Prop where
  truncateIx : EndsPart text t.truncateIx
  lastWrapIx : EndsPart text t.lastWrapIx
  lastCandidateIx : EndsPart text t.lastCandidateIx

variable {t : Truncating X}

theorem Noted.append (h : Noted t text) (more : List Char) : Noted t (text ++ more) :=
  ⟨h.truncateIx.append more, h.lastWrapIx.append more, h.lastCandidateIx.append more⟩

theorem Noted.noteChar (h : Noted t text) (c : Char) :
    Noted (t.noteChar (utf8Len text) c) text := by
  unfold Truncating.noteChar
  cases t.isCandidate c with
  | true =>
    simp only [if_true]
    split
    · exact ⟨h.truncateIx, h.lastWrapIx, endsPart_self text⟩
    · exact ⟨h.truncateIx, h.lastWrapIx, endsPart_self text⟩
  | false =>
    simp only [Bool.false_eq_true, if_false]
    split
    · exact ⟨h.truncateIx, h.lastWrapIx, h.lastCandidateIx⟩
    · exact h

theorem noted_newline (t : Truncating X) [Field X] (text : List Char) :
    Noted (t.newline (utf8Len text)) (text ++ ['\n']) := by
  have hlen : utf8Len (text ++ ['\n']) = utf8Len text + 1 := utf8Len_append text ['\n']
  have hend : EndsPart (text ++ ['\n']) (utf8Len text + 1) := hlen ▸ endsPart_self _
  exact ⟨hend, hend, ⟨[], nil_prefix, rfl⟩⟩

theorem Noted.breakLine [Field X] (h : Noted t text) (widthForChar : Char → X) (charWidth : X) :
    Noted (t.breakLine widthForChar (utf8Len text) charWidth) text := by
  unfold Truncating.breakLine
  split
  · exact ⟨h.lastCandidateIx, h.lastCandidateIx, ⟨[], nil_prefix, rfl⟩⟩
  · exact ⟨endsPart_self text, endsPart_self text, h.lastCandidateIx⟩

/-- The text is cut behind a first part of it, and something is cut off. -/
theorem truncationIx_endsPart [Field X] [LinearOrder X] [IsStrictOrderedRing X]
    {widthForChar : Char → X} {wrapWidth affixWidth : X} {maxLines : Nat}
    (haffix : 0 ≤ affixWidth) {front rest : List Char} (h : Noted t front) {truncateIx : Nat}
    (hcut : truncationIx widthForChar wrapWidth affixWidth maxLines t
      (utf8Len front) rest = some truncateIx) :
    ∃ kept dropped, front ++ rest = kept ++ dropped ∧ dropped ≠ [] ∧ utf8Len kept = truncateIx := by
  -- what was noted before a character is before the rest of the text
  have hbefore : ∀ {text : List Char} {c : Char} {more : List Char} {ix : Nat}, EndsPart text ix →
      ∃ kept dropped, text ++ c :: more = kept ++ dropped ∧ dropped ≠ [] ∧ utf8Len kept = ix := by
    intro text c more ix hix
    obtain ⟨part, ⟨between, rfl⟩, rfl⟩ := hix
    exact ⟨part, between ++ c :: more, append_assoc _ _ _, by simp, rfl⟩
  induction rest generalizing t front with
  | nil => cases hcut
  | cons c rest ih =>
    have hsplit : front ++ c :: rest = (front ++ [c]) ++ rest := by simp
    have hlen : utf8Len front + c.utf8Size = utf8Len (front ++ [c]) := by
      rw [utf8Len_append, utf8Len_cons, utf8Len_nil, Nat.add_zero]
    rw [truncationIx] at hcut
    split at hcut
    · rename_i hc
      split at hcut
      · cases hcut
        exact hbefore h.truncateIx
      · have hone : utf8Len front + 1 = utf8Len (front ++ ['\n']) :=
          (utf8Len_append front ['\n']).symm
        rw [hone] at hcut
        rw [hsplit, hc]
        exact ih (noted_newline t front) hcut
    · have hnoted := h.noteChar c
      dsimp only at hcut
      rw [hlen] at hcut
      split at hcut
      · -- before the last line
        rw [hsplit]
        refine ih ?_ hcut
        split
        · have hwidened : Noted { t.noteChar (utf8Len front) c with
              width := (t.noteChar (utf8Len front) c).width + widthForChar c } front :=
            ⟨hnoted.truncateIx, hnoted.lastWrapIx, hnoted.lastCandidateIx⟩
          have hbreak := (hwidened.breakLine widthForChar (widthForChar c)).append [c]
          exact ⟨hbreak.truncateIx, hbreak.lastWrapIx, hbreak.lastCandidateIx⟩
        · have hsame := hnoted.append [c]
          exact ⟨hsame.truncateIx, hsame.lastWrapIx, hsame.lastCandidateIx⟩
      · -- on the last line
        have hafter := hnoted.append [c]
        split at hcut
        · rename_i hfits
          split at hcut
          · -- a line that is too wide has no room for the affix
            linarith
          · rw [hsplit]
            refine ih ?_ hcut
            exact ⟨endsPart_self _, hafter.lastWrapIx, hafter.lastCandidateIx⟩
        · split at hcut
          · cases hcut
            exact hbefore hnoted.truncateIx
          · rw [hsplit]
            refine ih ?_ hcut
            exact ⟨hafter.truncateIx, hafter.lastWrapIx, hafter.lastCandidateIx⟩

variable [Field X] [LinearOrder X] [IsStrictOrderedRing X] [FloorRing X]

theorem truncateWrappedLine_aligned {widthForChar : Char → X}
    (haffix : 0 ≤ textWidth widthForChar affix) (hlen : totalLen runs = utf8Len line)
    (wrapWidth : X) (maxLines : Nat) (truncateFrom : TruncateFrom)
    (hsome : truncateFrom = .middle → runs = [] → 0 ≤ wrapWidth ∨ affix = []) :
    ∃ result runs', truncateWrappedLine widthForChar line wrapWidth maxLines affix runs
        truncateFrom = .ok (result, runs') ∧ Aligned line affix runs result runs' := by
  unfold truncateWrappedLine
  split
  · refine truncateLine_aligned widthForChar hlen _ truncateFrom ?_
    intro hmiddle hruns
    exact (hsome hmiddle hruns).imp_left (fun hle => mul_nonneg hle (Nat.cast_nonneg _))
  · split
    · exact truncateLine_aligned widthForChar hlen _ truncateFrom hsome
    · dsimp only
      split
      · rename_i truncateIx hcut
        have hstart : Noted (Truncating.start : Truncating X) [] :=
          ⟨endsPart_self [], endsPart_self [], endsPart_self []⟩
        obtain ⟨kept, dropped, hline, hne, hix⟩ := truncationIx_endsPart haffix hstart hcut
        rw [← hix]
        exact aligned_truncateAtEnd hne hline hlen
      · exact ⟨_, _, rfl, aligned_same hlen⟩

/-- Truncation keeps text and runs aligned: on one line whatever the widths are, and on
    wrapped lines if the affix has no negative width. -/
theorem truncation_aligned (widthForChar : Char → X) (hlen : totalLen runs = utf8Len line)
    (width : X) (truncateFrom : TruncateFrom)
    (hsome : truncateFrom = .middle → runs = [] → 0 ≤ width ∨ affix = []) :
    (∃ result runs', truncateLine widthForChar line width affix runs truncateFrom
        = .ok (result, runs') ∧ Aligned line affix runs result runs') ∧
    (0 ≤ textWidth widthForChar affix → ∀ maxLines,
      ∃ result runs', truncateWrappedLine widthForChar line width maxLines affix runs truncateFrom
        = .ok (result, runs') ∧ Aligned line affix runs result runs') := by
  refine ⟨truncateLine_aligned widthForChar hlen width truncateFrom hsome, ?_⟩
  intro haffix maxLines
  exact truncateWrappedLine_aligned haffix hlen width maxLines truncateFrom hsome

theorem truncation_aligned_twoRuns :
    (∃ result runs', truncateLine (fun _ => (1 : ℚ)) "abcd".toList 3 ['…'] [⟨2, 0⟩, ⟨2, 1⟩] .middle
        = .ok (result, runs') ∧ Aligned "abcd".toList ['…'] [⟨2, 0⟩, ⟨2, 1⟩] result runs') ∧
    (0 ≤ textWidth (fun _ => (1 : ℚ)) ['…'] → ∀ maxLines,
      ∃ result runs', truncateWrappedLine (fun _ => (1 : ℚ)) "abcd".toList 3 maxLines ['…']
          [⟨2, 0⟩, ⟨2, 1⟩] .middle
        = .ok (result, runs') ∧ Aligned "abcd".toList ['…'] [⟨2, 0⟩, ⟨2, 1⟩] result runs') :=
  truncation_aligned (fun _ => 1) (by decide) 3 .middle (fun _ hruns => nomatch hruns)

/-- An empty line without runs has none for the affix, and an affix of negative width goes
    behind the whole text, where no run is cut. -/
theorem truncation_not_aligned :
    (¬ ∀ (widthForChar : Char → ℚ) (line affix : List Char) (runs : List (TextRun Nat)),
      totalLen runs = utf8Len line → ∀ width truncateFrom,
      ∃ result runs', truncateLine widthForChar line width affix runs truncateFrom
        = .ok (result, runs') ∧ Aligned line affix runs result runs') ∧
    ¬ ∀ (widthForChar : Char → ℚ) (line affix : List Char) (runs : List (TextRun Nat)),
      totalLen runs = utf8Len line → ∀ width, 0 ≤ width → ∀ maxLines truncateFrom,
      ∃ result runs', truncateWrappedLine widthForChar line width maxLines affix runs truncateFrom
        = .ok (result, runs') ∧ Aligned line affix runs result runs' := by
  constructor
  · intro h
    obtain ⟨result, runs', hresult, hlen, _⟩ := h (fun _ => 1) [] ['…'] [] rfl (-1) .middle
    have hcut : truncateLine (fun _ => (1 : ℚ)) [] (-1) ['…'] ([] : List (TextRun Nat)) .middle
        = .ok (['…'], []) := by decide +kernel
    rw [hcut] at hresult
    cases hresult
    exact absurd hlen (by decide)
  · intro h
    obtain ⟨result, runs', hresult, hlen, _⟩ := h (fun c => if c = '…' then -1 else 1)
      "a\nb".toList ['…'] [⟨3, 0⟩] rfl 0 (by decide +kernel) 2 .stop
    have hcut : truncateWrappedLine (fun c => if c = '…' then (-1 : ℚ) else 1) "a\nb".toList 0 2
        ['…'] [⟨3, 0⟩] .stop = .ok ("a\nb…".toList, [⟨3, 0⟩]) := by decide +kernel
    rw [hcut] at hresult
    cases hresult
    exact absurd hlen (by decide)

end LineWrapper

end Gpui
