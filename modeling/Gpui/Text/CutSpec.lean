import Gpui.Text.TruncateSpec

/-! # Runs of a text, byte by byte

    A list of runs gives a style to every byte of a text.  The loops that shorten runs are
    described by what they do to these bytes: the runs that are cut keep the styles on one
    side of the cut, and the affix takes the style of a run at the cut. -/

namespace Gpui

open List

namespace LineWrapper

variable {S : Type}

/-! ### Section 1: Styles -/

/-- The style of every byte. -/
def styles (runs : List (TextRun S)) : List S :=
  runs.flatMap (fun run => List.replicate run.len run.style)

/-- The number of bytes. -/
def totalLen (runs : List (TextRun S)) : Nat :=
  (runs.map TextRun.len).sum

@[simp] theorem styles_nil : styles ([] : List (TextRun S)) = [] := rfl

@[simp] theorem styles_cons (run : TextRun S) (runs : List (TextRun S)) :
    styles (run :: runs) = List.replicate run.len run.style ++ styles runs := rfl

@[simp] theorem styles_append (a b : List (TextRun S)) : styles (a ++ b) = styles a ++ styles b :=
  flatMap_append

theorem styles_reverse (runs : List (TextRun S)) : styles runs.reverse = (styles runs).reverse := by
  induction runs with
  | nil => rfl
  | cons run rest ih =>
    rw [reverse_cons, styles_append, ih, styles_cons, styles_cons, styles_nil,
      append_nil, reverse_append, reverse_replicate]

theorem length_styles (runs : List (TextRun S)) : (styles runs).length = totalLen runs := by
  induction runs with
  | nil => rfl
  | cons run rest ih =>
    rw [styles_cons, length_append, length_replicate, ih]
    rfl

theorem totalLen_cons (run : TextRun S) (runs : List (TextRun S)) :
    totalLen (run :: runs) = run.len + totalLen runs := rfl

/-! ### Section 2: The cuts -/

theorem take_replicate_append {k len : Nat} (style : S) (rest : List S) :
    (List.replicate len style ++ rest).take k
      = if len ≤ k then List.replicate len style ++ rest.take (k - len)
        else List.replicate k style := by
  rw [take_append, length_replicate, take_replicate]
  split
  · rename_i hle
    rw [Nat.min_eq_right hle]
  · rename_i hlt
    have hzero : k - len = 0 := by omega
    rw [hzero, take_zero, append_nil, Nat.min_eq_left (by omega)]

theorem drop_replicate_append {k len : Nat} (style : S) (rest : List S) :
    (List.replicate len style ++ rest).drop k
      = List.replicate (len - k) style ++ rest.drop (k - len) := by
  rw [drop_append, length_replicate, drop_replicate]

variable {runs : List (TextRun S)} {frontEndIx : Nat}

/-- The runs up to a cut in the text, with an affix behind it. -/
theorem styles_cutRuns (affixLen : Nat) {truncateAt : Nat} (h : truncateAt < totalLen runs) :
    ∃ style, styles (cutRuns affixLen truncateAt runs)
      = (styles runs).take truncateAt ++ List.replicate affixLen style := by
  induction runs generalizing truncateAt with
  | nil => exact absurd h (Nat.not_lt_zero _)
  | cons run rest ih =>
    rw [totalLen_cons] at h
    rw [cutRuns, styles_cons, take_replicate_append]
    split
    · -- the run stays as it is
      obtain ⟨style, hrest⟩ := ih (show truncateAt - run.len < totalLen rest by omega)
      refine ⟨style, ?_⟩
      rw [styles_cons, hrest, append_assoc]
    · refine ⟨run.style, ?_⟩
      rw [styles_cons, styles_nil, append_nil, replicate_add]

/-- The runs from a cut in the text on, with an affix before it. -/
theorem styles_cutRuns_reverse (affixLen : Nat) {kept : Nat} (h : kept < totalLen runs) :
    ∃ style, styles (cutRuns affixLen kept runs.reverse).reverse
      = List.replicate affixLen style ++ (styles runs).drop (totalLen runs - kept) := by
  have htotal : totalLen runs.reverse = totalLen runs := by
    rw [← length_styles, styles_reverse, length_reverse, length_styles]
  obtain ⟨style, hcut⟩ := styles_cutRuns affixLen (htotal.symm ▸ h)
  refine ⟨style, ?_⟩
  rw [styles_reverse, hcut, styles_reverse, reverse_append, reverse_replicate,
    reverse_take, length_reverse, reverse_reverse, length_styles]

/-- The front part is cut as the whole is. -/
theorem frontRuns_eq {affixLen : Nat} (h : frontEndIx < totalLen runs) :
    frontRuns affixLen frontEndIx runs = (cutRuns affixLen frontEndIx runs, true) := by
  induction runs generalizing frontEndIx with
  | nil => exact absurd h (Nat.not_lt_zero _)
  | cons run rest ih =>
    rw [totalLen_cons] at h
    rw [frontRuns, cutRuns]
    split
    · rename_i hle
      rw [ih (show frontEndIx - run.len < totalLen rest by omega)]
    · rfl

/-- No run is cut at the end of the text. -/
theorem frontRuns_all {affixLen : Nat}
    (h : totalLen runs ≤ frontEndIx) : frontRuns affixLen frontEndIx runs = (runs, false) := by
  induction runs generalizing frontEndIx with
  | nil => rfl
  | cons run rest ih =>
    rw [totalLen_cons] at h
    rw [frontRuns, if_pos (by omega), ih (by omega)]

theorem styles_addAffixRun (affixLen : Nat) (original : List (TextRun S)) (h : runs ≠ []) :
    ∃ style, styles (addAffixRun affixLen original runs)
      = styles runs ++ List.replicate affixLen style := by
  obtain ⟨front, last, rfl⟩ := runs.eq_nil_or_concat.resolve_left h
  refine ⟨last.style, ?_⟩
  rw [concat_eq_append, addAffixRun, getLast?_concat, dropLast_concat]
  simp only [styles_append, styles_cons, styles_nil, append_nil, replicate_add,
    append_assoc]

theorem styles_backRuns (backStartIx bytePos : Nat) (runs : List (TextRun S)) :
    styles (backRuns backStartIx bytePos runs)
      = (styles runs).drop (backStartIx - bytePos) := by
  induction runs generalizing bytePos with
  | nil => rw [backRuns, styles_nil, drop_nil]
  | cons run rest ih =>
    rw [backRuns, styles_append, ih, styles_cons, drop_replicate_append]
    have hrest : backStartIx - (bytePos + run.len) = backStartIx - bytePos - run.len := by omega
    rw [hrest]
    congr 1
    split
    · split
      · -- the run is cut
        have hlen : run.len - (backStartIx - bytePos) = bytePos + run.len - backStartIx := by omega
        rw [hlen, styles_cons, styles_nil, append_nil]
      · have hlen : run.len - (backStartIx - bytePos) = run.len := by omega
        rw [hlen, styles_cons, styles_nil, append_nil]
    · have hlen : run.len - (backStartIx - bytePos) = 0 := by omega
      rw [hlen, styles_nil, replicate_zero]

/-- The runs around an affix in the middle. -/
theorem styles_middle (affix : List Char) (backStartIx : Nat)
    (h : frontEndIx < totalLen runs ∨ totalLen runs = 0 ∧ runs ≠ []) :
    ∃ style, styles (updateRunsAfterMiddleTruncation affix runs frontEndIx backStartIx)
      = (styles runs).take frontEndIx ++ List.replicate (utf8Len affix) style ++
        (styles runs).drop backStartIx := by
  unfold updateRunsAfterMiddleTruncation
  have hback := styles_backRuns backStartIx 0 runs
  rw [Nat.sub_zero] at hback
  by_cases hlt : frontEndIx < totalLen runs
  · obtain ⟨style, hcut⟩ := styles_cutRuns (utf8Len affix) hlt
    refine ⟨style, ?_⟩
    rw [frontRuns_eq hlt]
    dsimp only
    rw [if_pos rfl, styles_append, hcut, hback]
  · -- all runs are empty
    obtain ⟨hzero, hne⟩ := h.resolve_left hlt
    obtain ⟨style, hadd⟩ := styles_addAffixRun (utf8Len affix) runs hne
    refine ⟨style, ?_⟩
    have htake : (styles runs).take frontEndIx = styles runs :=
      take_of_length_le (by rw [length_styles]; omega)
    rw [frontRuns_all (by omega)]
    dsimp only
    rw [if_neg Bool.false_ne_true, styles_append, hadd, hback, htake]

end LineWrapper

end Gpui

/-! # Where a line is cut

    The scans return the byte index of a character, or the one they start with.  So every
    slice of a line is taken at a character, and what stays of the line is a part before
    the affix and a part behind it. -/

namespace Gpui

namespace LineWrapper

/-! ### Section 1: Characters with their indices -/

theorem map_charIndices (ix : Nat) (line : List Char) :
    (charIndices ix line).map Prod.snd = line := by
  induction line generalizing ix with
  | nil => rfl
  | cons c rest ih => rw [charIndices, List.map_cons, ih]

/-- An index is the number of bytes before its character. -/
theorem index_eq {before after : List (Nat × Char)} {start ix : Nat} {c : Char}
    {line : List Char} (h : charIndices start line = before ++ (ix, c) :: after) :
    line = before.map Prod.snd ++ c :: after.map Prod.snd ∧
      ix = start + utf8Len (before.map Prod.snd) := by
  induction before generalizing start line with
  | nil =>
    cases line with
    | nil => cases h
    | cons d rest =>
      rw [charIndices, List.nil_append, List.cons.injEq] at h
      obtain ⟨hd, rfl⟩ := h
      cases hd
      rw [map_charIndices]
      exact ⟨rfl, rfl⟩
  | cons item before ih =>
    cases line with
    | nil => cases h
    | cons d rest =>
      rw [charIndices, List.cons_append, List.cons.injEq] at h
      obtain ⟨rfl, hrest⟩ := h
      obtain ⟨hline, hix⟩ := ih hrest
      refine ⟨congrArg (List.cons d) hline, ?_⟩
      rw [List.map_cons, utf8Len_cons, hix, Nat.add_assoc]

/-- The same for a scan from the end of the line. -/
theorem index_eq_reverse {before after : List (Nat × Char)} {ix : Nat} {c : Char}
    {line : List Char} (h : (charIndices 0 line).reverse = before ++ (ix, c) :: after) :
    line = (after.map Prod.snd).reverse ++ c :: (before.map Prod.snd).reverse ∧
      ix = utf8Len (after.map Prod.snd).reverse := by
  have hforward : charIndices 0 line = after.reverse ++ (ix, c) :: before.reverse := by
    have := congrArg List.reverse h
    simpa using this
  obtain ⟨hline, hix⟩ := index_eq hforward
  rw [List.map_reverse, List.map_reverse] at hline
  rw [List.map_reverse, Nat.zero_add] at hix
  exact ⟨hline, hix⟩

/-- The index behind the character that stands at an index. -/
theorem ceilCharBoundary_append (before after : List Char) (c : Char) :
    ceilCharBoundary (before ++ c :: after) (utf8Len before + 1) = utf8Len (before ++ [c]) := by
  induction before with
  | nil =>
    have hpos := c.utf8Size_pos
    rw [List.nil_append, utf8Len_nil, Nat.zero_add, ceilCharBoundary, List.nil_append,
      utf8Len_cons, utf8Len_nil]
    split
    · rfl
    · have hzero : 0 + 1 - c.utf8Size = 0 := by omega
      rw [hzero]
      cases after <;> rfl
  | cons d before ih =>
    have hrest : utf8Len (d :: before) + 1 - d.utf8Size = utf8Len before + 1 := by
      rw [utf8Len_cons]
      omega
    rw [List.cons_append, ceilCharBoundary, if_neg (by rw [utf8Len_cons]; omega), hrest, ih,
      List.cons_append, utf8Len_cons]

/-! ### Section 2: The scans -/

variable {X : Type} [Field X] [LinearOrder X] {widthForChar : Char → X}

/-- The scan returns the index of the last character before which the affix fits, or the one
    it starts with. -/
theorem shouldTruncate_some [FloorRing X] {truncateWidth suffixWidth width : X}
    {truncateIx ix : Nat} {items : List (Nat × Char)}
    (h : shouldTruncate widthForChar truncateWidth suffixWidth width truncateIx items = some ix) :
    items ≠ [] ∧ (ix = truncateIx ∨ ∃ before c after, items = before ++ (ix, c) :: after ∧
      width + textWidth widthForChar (before.map Prod.snd) + suffixWidth < truncateWidth) := by
  induction items generalizing width truncateIx with
  | nil => cases h
  | cons item rest ih =>
    obtain ⟨jx, c⟩ := item
    refine ⟨List.cons_ne_nil _ _, ?_⟩
    -- the index after this character
    have hnow : ∀ found, found = (if width + suffixWidth < truncateWidth then jx else truncateIx) →
        found = truncateIx ∨ ∃ before d after, (jx, c) :: rest = before ++ (found, d) :: after ∧
          width + textWidth widthForChar (before.map Prod.snd) + suffixWidth < truncateWidth := by
      intro found hfound
      split at hfound
      · rename_i hfits
        refine .inr ⟨[], c, rest, by rw [hfound]; rfl, ?_⟩
        rw [List.map_nil, textWidth, List.map_nil, List.sum_nil, add_zero]
        exact hfits
      · exact .inl hfound
    rw [shouldTruncate] at h
    split at h
    · exact hnow ix (Option.some.inj h).symm
    · obtain ⟨_, hcase⟩ := ih h
      obtain hsame | ⟨before, d, after, heq, hfits⟩ := hcase
      · exact hnow ix hsame
      · refine .inr ⟨(jx, c) :: before, d, after, by rw [heq]; rfl, ?_⟩
        rw [List.map_cons, textWidth_cons, ← add_assoc]
        exact hfits

/-- If the affix fits alone, it fits before the first character. -/
theorem shouldTruncate_room [FloorRing X] {truncateWidth suffixWidth width : X}
    {truncateIx ix : Nat} {items : List (Nat × Char)} (hroom : width + suffixWidth < truncateWidth)
    (h : shouldTruncate widthForChar truncateWidth suffixWidth width truncateIx items = some ix) :
    ∃ before c after, items = before ++ (ix, c) :: after ∧
      width + textWidth widthForChar (before.map Prod.snd) + suffixWidth < truncateWidth := by
  cases items with
  | nil => cases h
  | cons item rest =>
    -- the index that the scan starts with is not looked at
    obtain ⟨jx, c⟩ := item
    have hsame : shouldTruncate widthForChar truncateWidth suffixWidth width truncateIx
        ((jx, c) :: rest)
        = shouldTruncate widthForChar truncateWidth suffixWidth width jx ((jx, c) :: rest) := by
      rw [shouldTruncate, shouldTruncate, if_pos hroom, if_pos hroom]
    rw [hsame] at h
    obtain ⟨_, hcase⟩ := shouldTruncate_some h
    match hcase with
    | .inr hfound => exact hfound
    | .inl heq =>
      refine ⟨[], c, rest, by rw [heq]; rfl, ?_⟩
      rw [List.map_nil, textWidth, List.map_nil, List.sum_nil, add_zero]
      exact hroom

section

omit [LinearOrder X]

theorem textWidth_reverse (text : List Char) :
    textWidth widthForChar text.reverse = textWidth widthForChar text := by
  rw [textWidth, List.map_reverse, List.sum_reverse]
  rfl

theorem textWidth_append (a b : List Char) :
    textWidth widthForChar (a ++ b) = textWidth widthForChar a + textWidth widthForChar b := by
  rw [textWidth, List.map_append, List.sum_append]
  rfl

end

/-- The last character up to which a text is within the budget. -/
theorem fitBudget_some (widthForChar : Char → X) (budget width : X)
    (last : Option (Nat × Char)) (items : List (Nat × Char)) :
    fitBudget widthForChar budget width last items = last ∨
      ∃ before ix c after, items = before ++ (ix, c) :: after ∧
        fitBudget widthForChar budget width last items = some (ix, c) ∧
        width + textWidth widthForChar (before.map Prod.snd) + widthForChar c ≤ budget := by
  induction items generalizing width last with
  | nil => exact .inl rfl
  | cons item rest ih =>
    obtain ⟨jx, d⟩ := item
    rw [fitBudget]
    split
    · exact .inl rfl
    · rename_i hfits
      right
      match ih (width + widthForChar d) (some (jx, d)) with
      | .inl hlast =>
        refine ⟨[], jx, d, rest, rfl, hlast, ?_⟩
        rw [List.map_nil, textWidth, List.map_nil, List.sum_nil, add_zero]
        exact not_lt.1 hfits
      | .inr ⟨before, ix, c, after, heq, hfound, hle⟩ =>
        refine ⟨(jx, d) :: before, ix, c, after, by rw [heq]; rfl, hfound, ?_⟩
        rw [List.map_cons, textWidth_cons, ← add_assoc]
        exact hle

/-- The part of a line that fits into a budget, from its start. -/
theorem fitBudget_front (widthForChar : Char → X) (line : List Char) (budget : X) :
    ∃ front rest, line = front ++ rest ∧
      (match fitBudget widthForChar budget 0 none (charIndices 0 line) with
        | some (ix, c) => ix + c.utf8Size
        | none         => 0) = utf8Len front ∧
      (0 ≤ budget → textWidth widthForChar front ≤ budget) := by
  match fitBudget_some widthForChar budget 0 none (charIndices 0 line) with
  | .inl hnone =>
    refine ⟨[], line, rfl, by rw [hnone]; rfl, ?_⟩
    intro hle
    exact hle
  | .inr ⟨before, ix, c, after, heq, hfound, hle⟩ =>
    obtain ⟨hline, hix⟩ := index_eq heq
    refine ⟨before.map Prod.snd ++ [c], after.map Prod.snd, ?_, ?_, ?_⟩
    · rw [hline]
      simp
    · rw [hfound, hix]
      simp
    · intro _
      rw [zero_add] at hle
      have hsingle : textWidth widthForChar [c] = widthForChar c := by simp [textWidth]
      rw [textWidth_append, hsingle]
      exact hle

/-- The part that fits into a budget, up to its end. -/
theorem fitBudget_back (widthForChar : Char → X) (line : List Char) (budget : X) :
    ∃ rest back, line = rest ++ back ∧
      (match fitBudget widthForChar budget 0 none (charIndices 0 line).reverse with
        | some (ix, _) => ix
        | none         => utf8Len line) = utf8Len rest ∧
      (0 ≤ budget → textWidth widthForChar back ≤ budget) := by
  match fitBudget_some widthForChar budget 0 none (charIndices 0 line).reverse with
  | .inl hnone =>
    refine ⟨line, [], (List.append_nil _).symm, by rw [hnone], ?_⟩
    intro hle
    exact hle
  | .inr ⟨before, ix, c, after, heq, hfound, hle⟩ =>
    obtain ⟨hline, hix⟩ := index_eq_reverse heq
    refine ⟨_, c :: (before.map Prod.snd).reverse, hline, ?_, ?_⟩
    · rw [hfound, hix]
    · intro _
      rw [zero_add] at hle
      rw [textWidth_cons, textWidth_reverse, add_comm]
      exact hle

/-! ### Section 3: The three cuts -/

variable {S : Type} {line affix : List Char} {truncateWidth : X}

variable (widthForChar line affix truncateWidth) in
/-- At the end a character is cut off, and all behind it. -/
theorem truncateLine_stop [FloorRing X] (runs : List (TextRun S)) :
    truncateLine widthForChar line truncateWidth affix runs .stop = .ok (line, runs) ∨
    ∃ front c rest, line = front ++ c :: rest ∧
      truncateLine widthForChar line truncateWidth affix runs .stop
        = truncateAtEnd line (utf8Len front) affix runs ∧
      (front = [] ∨
        textWidth widthForChar front + textWidth widthForChar affix < truncateWidth) := by
  unfold truncateLine
  dsimp only
  cases hscan : shouldTruncateLine widthForChar line truncateWidth affix .stop with
  | none => exact .inl rfl
  | some truncateIx =>
    right
    obtain ⟨hne, hcase⟩ := shouldTruncate_some hscan
    match hcase with
    | .inl hzero =>
      cases line with
      | nil => exact absurd rfl hne
      | cons c rest => exact ⟨[], c, rest, rfl, by rw [hzero]; rfl, .inl rfl⟩
    | .inr ⟨before, c, after, heq, hfits⟩ =>
      obtain ⟨hline, hix⟩ := index_eq heq
      refine ⟨before.map Prod.snd, c, after.map Prod.snd, hline, ?_, .inr ?_⟩
      · rw [hix, Nat.zero_add]
      · rw [zero_add] at hfits
        exact hfits

variable (widthForChar line affix truncateWidth) in
/-- At the start a character is cut off, and all before it. -/
theorem truncateLine_start [FloorRing X] (runs : List (TextRun S)) :
    (shouldTruncateLine widthForChar line truncateWidth affix .start = none ∧
      truncateLine widthForChar line truncateWidth affix runs .start = .ok (line, runs)) ∨
    ∃ removed c kept, line = removed ++ c :: kept ∧
      (shouldTruncateLine widthForChar line truncateWidth affix .start).isSome ∧
      truncateLine widthForChar line truncateWidth affix runs .start
        = .ok (affix ++ kept,
            (cutRuns (utf8Len affix) (utf8Len kept) runs.reverse).reverse) ∧
      (removed = [] ∧ truncateWidth ≤ textWidth widthForChar affix ∨
        textWidth widthForChar kept + textWidth widthForChar affix < truncateWidth) := by
  unfold truncateLine
  dsimp only
  cases hscan : shouldTruncateLine widthForChar line truncateWidth affix .start with
  | none => exact .inl ⟨rfl, rfl⟩
  | some truncateIx =>
    right
    -- the character that is cut off
    obtain ⟨removed, c, kept, hline, rfl, hkept⟩ : ∃ removed c kept,
        line = removed ++ c :: kept ∧ truncateIx = utf8Len removed ∧
        (removed = [] ∧ truncateWidth ≤ textWidth widthForChar affix ∨
          textWidth widthForChar kept + textWidth widthForChar affix < truncateWidth) := by
      obtain ⟨hne, hcase⟩ := shouldTruncate_some hscan
      by_cases hroom : 0 + textWidth widthForChar affix < truncateWidth
      · obtain ⟨before, c, after, heq, hfits⟩ := shouldTruncate_room hroom hscan
        obtain ⟨hline, hix⟩ := index_eq_reverse heq
        refine ⟨_, c, _, hline, hix, .inr ?_⟩
        rw [zero_add] at hfits
        rw [textWidth_reverse]
        exact hfits
      · have hle := not_lt.1 hroom
        rw [zero_add] at hle
        match hcase with
        | .inl hzero =>
          cases line with
          | nil => exact absurd rfl hne
          | cons c rest => exact ⟨[], c, rest, rfl, hzero, .inl ⟨rfl, hle⟩⟩
        | .inr ⟨before, c, after, heq, hfits⟩ =>
          obtain ⟨hline, hix⟩ := index_eq_reverse heq
          refine ⟨_, c, _, hline, hix, .inr ?_⟩
          rw [zero_add] at hfits
          rw [textWidth_reverse]
          exact hfits
    refine ⟨removed, c, kept, hline, rfl, ?_, hkept⟩
    have hslice : sliceFrom line (ceilCharBoundary line (utf8Len removed + 1)) = .ok kept := by
      rw [hline, ceilCharBoundary_append]
      have hsplit : removed ++ c :: kept = (removed ++ [c]) ++ kept := by simp
      rw [hsplit, sliceFrom_append]
    have hsub : checkedSub (utf8Len (affix ++ kept)) (utf8Len affix) = .ok (utf8Len kept) := by
      unfold checkedSub
      rw [utf8Len_append, if_pos (Nat.le_add_right _ _), Nat.add_sub_cancel_left]
    dsimp only
    rw [hslice]
    simp only [Exec.ok_bind, updateRunsAfterTruncation, hsub]
    rfl

variable (widthForChar line affix truncateWidth) in
/-- What the scan for a cut in the middle finds: everything, or what is between a front part
    and a back part that fit beside the affix. -/
def MiddleCut (scan : Option (Nat × Nat)) : Prop :=
  ∃ front removed back, line = front ++ removed ++ back ∧
    (line = [] ∨ utf8Len front < utf8Len line) ∧
    scan = some (utf8Len front, utf8Len (front ++ removed)) ∧
    (front = [] ∧ back = [] ∨ textWidth widthForChar front + textWidth widthForChar affix +
      textWidth widthForChar back ≤ truncateWidth)

theorem middleCut_all : MiddleCut widthForChar line affix truncateWidth
    (some (0, utf8Len line)) := by
  refine ⟨[], line, [], by simp, ?_, rfl, .inl ⟨rfl, rfl⟩⟩
  cases line with
  | nil => exact .inl rfl
  | cons c rest =>
    right
    have := c.utf8Size_pos
    rw [utf8Len_nil, utf8Len_cons]
    omega

/-- A front part that ends before a back part starts. -/
theorem middleCut_of_fits {front afterFront beforeBack back : List Char}
    (hlineFront : line = front ++ afterFront) (hlineBack : line = beforeBack ++ back)
    (hlt : utf8Len front < utf8Len beforeBack)
    (hwidth : textWidth widthForChar front + textWidth widthForChar affix +
      textWidth widthForChar back ≤ truncateWidth) :
    MiddleCut widthForChar line affix truncateWidth (some (utf8Len front, utf8Len beforeBack)) := by
  obtain ⟨removed, rfl⟩ : ∃ removed, beforeBack = front ++ removed := by
    rcases List.append_eq_append_iff.1 (hlineFront.symm.trans hlineBack) with
      ⟨more, hmore, _⟩ | ⟨more, hmore, _⟩
    · exact ⟨more, hmore⟩
    · rw [hmore, utf8Len_append] at hlt
      exact absurd hlt (Nat.not_lt.2 (Nat.le_add_right _ _))
  refine ⟨front, removed, back, hlineBack, .inr ?_, rfl, .inr hwidth⟩
  rw [hlineBack, utf8Len_append]
  omega

theorem shouldTruncateLineMiddle_cut [FloorRing X] [IsStrictOrderedRing X]
    (hfits : ¬ textWidth widthForChar line ≤ truncateWidth) :
    MiddleCut widthForChar line affix truncateWidth
      (shouldTruncateLineMiddle widthForChar line truncateWidth affix) := by
  by_cases hbudget : truncateWidth - textWidth widthForChar affix ≤ 0
  · -- the affix takes all the room
    unfold shouldTruncateLineMiddle
    rw [if_neg hfits, if_pos hbudget]
    exact middleCut_all
  · have hpos := not_le.1 hbudget
    obtain ⟨front, afterFront, hlineFront, hfrontIx, hfrontWidth⟩ :=
      fitBudget_front widthForChar line
        ((truncateWidth - textWidth widthForChar affix) * ((2 : Nat) / (3 : Nat)))
    obtain ⟨beforeBack, back, hlineBack, hbackIx, hbackWidth⟩ :=
      fitBudget_back widthForChar line
        ((truncateWidth - textWidth widthForChar affix) -
          (truncateWidth - textWidth widthForChar affix) * ((2 : Nat) / (3 : Nat)))
    have hscan : shouldTruncateLineMiddle widthForChar line truncateWidth affix
        = if utf8Len beforeBack ≤ utf8Len front then some (0, utf8Len line)
          else some (utf8Len front, utf8Len beforeBack) := by
      unfold shouldTruncateLineMiddle
      rw [if_neg hfits, if_neg hbudget]
      exact congrArg₂ (fun backStartIx frontEndIx =>
        if backStartIx ≤ frontEndIx then some (0, utf8Len line)
        else some (frontEndIx, backStartIx)) hbackIx hfrontIx
    rw [hscan]
    split
    · exact middleCut_all
    · next hoverlap =>
      refine middleCut_of_fits hlineFront hlineBack (Nat.not_le.1 hoverlap) ?_
      -- the two budgets are what the affix leaves
      have hthird : (0 : X) ≤ (truncateWidth - textWidth widthForChar affix) *
          ((2 : Nat) / (3 : Nat)) := by positivity
      have hrest : (0 : X) ≤ (truncateWidth - textWidth widthForChar affix) -
          (truncateWidth - textWidth widthForChar affix) * ((2 : Nat) / (3 : Nat)) := by
        linarith
      have := hfrontWidth hthird
      have := hbackWidth hrest
      linarith

variable (widthForChar line affix truncateWidth) in
/-- In the middle nothing is cut off, or everything, or what is between a front part and a
    back part that fit beside the affix. -/
theorem truncateLine_middle [FloorRing X] [IsStrictOrderedRing X] (runs : List (TextRun S)) :
    (textWidth widthForChar line ≤ truncateWidth ∧
      truncateLine widthForChar line truncateWidth affix runs .middle = .ok (line, runs)) ∨
    (truncateWidth < textWidth widthForChar line ∧
      ∃ front removed back, line = front ++ removed ++ back ∧
        (line = [] ∨ utf8Len front < utf8Len line) ∧
        truncateLine widthForChar line truncateWidth affix runs .middle
          = .ok (front ++ affix ++ back, updateRunsAfterMiddleTruncation affix runs
              (utf8Len front) (utf8Len (front ++ removed))) ∧
        (front = [] ∧ back = [] ∨ textWidth widthForChar front + textWidth widthForChar affix +
          textWidth widthForChar back ≤ truncateWidth)) := by
  by_cases hfits : textWidth widthForChar line ≤ truncateWidth
  · refine .inl ⟨hfits, ?_⟩
    unfold truncateLine shouldTruncateLineMiddle
    dsimp only
    rw [if_pos hfits]
    rfl
  · refine .inr ⟨not_le.1 hfits, ?_⟩
    obtain ⟨front, removed, back, hline, hlen, hscan, hwidth⟩ :
        MiddleCut widthForChar line affix truncateWidth _ := shouldTruncateLineMiddle_cut hfits
    refine ⟨front, removed, back, hline, hlen, ?_, hwidth⟩
    have hto : sliceTo line (utf8Len front) = .ok front := by
      rw [hline, List.append_assoc, sliceTo_append]
    have hfrom : sliceFrom line (utf8Len (front ++ removed)) = .ok back := by
      rw [hline, sliceFrom_append]
    unfold truncateLine
    dsimp only
    rw [hscan]
    simp only [hto, hfrom, Exec.ok_bind]
    rfl

end LineWrapper

end Gpui
