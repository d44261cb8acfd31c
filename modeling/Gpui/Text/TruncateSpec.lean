import Gpui.Text.WrapSpec

/-! # `truncate_wrapped_line` and `wrap_line`

    Up to the last line the two loops run in lockstep; on the last line the first one
    only looks for the place to cut.  They part where the previous character of
    `wrap_line` is not the character before, which it may be after a break. -/

namespace Gpui

open List

namespace LineWrapper

variable {X : Type} [Field X] [LinearOrder X]
variable {widthForChar : Char → X} {wrapWidth affixWidth : X} {maxLines : Nat}

open Wrapping (start placed_start index_after index_step step_cases step_breaks
  textWidth_nonneg)

namespace Wrapping

variable {st : Wrapping X}

/-- Without a break a text only widens the line. -/
theorem frame_of_breaks [IsStrictOrderedRing X] (hw : ∀ c, 0 ≤ widthForChar c)
    (text : List Char) (h : st.breaks widthForChar wrapWidth text = 0) :
    st.width ≤ (st.after widthForChar wrapWidth text).width ∧
      (st.after widthForChar wrapWidth text).lastWrapIx = st.lastWrapIx := by
  induction text generalizing st with
  | nil => exact ⟨le_refl _, rfl⟩
  | cons c rest ih =>
    rw [breaks_cons] at h
    rw [after_cons]
    rcases step_cases st c with ⟨_, hstep⟩ | ⟨_, hstep⟩ | hover
    · rw [hstep] at h ⊢
      simp only [Option.toList_none, length_nil, Nat.zero_add] at h
      exact ih h
    · rw [hstep] at h ⊢
      simp only [Option.toList_none, length_nil, Nat.zero_add] at h
      obtain ⟨hwidth, _, hwrap, _⟩ := widened_frame widthForChar st c
      obtain ⟨hle, hlast⟩ := ih h
      refine ⟨le_trans ?_ hle, hlast.trans hwrap⟩
      have hc := hw c
      linarith
    · have hone := (step_breaks hover).2
      omega

variable (widthForChar wrapWidth) in
theorem breaks_snoc (st : Wrapping X) (c : Char) (text : List Char) :
    st.breaks widthForChar wrapWidth (text ++ [c])
      = st.breaks widthForChar wrapWidth text
        + ((st.after widthForChar wrapWidth text).step widthForChar wrapWidth
          (.char c)).2.toList.length := by
  rw [breaks_append, breaks_cons, breaks_nil, Nat.add_zero]

theorem wrap_lt_after [IsStrictOrderedRing X] (hw : ∀ c, 0 ≤ widthForChar c)
    {text : List Char} (hne : text ≠ []) :
    ((start : Wrapping X).after widthForChar wrapWidth text).lastWrapIx
      < ((start : Wrapping X).after widthForChar wrapWidth text).index := by
  cases text using List.reverseRecOn with
  | nil => exact absurd rfl hne
  | append_singleton text c =>
    obtain ⟨hplaced, _⟩ := placed_start.after wrapWidth hw text
    rw [after_append, after_cons, after_nil]
    exact hplaced.wrap_lt_step hw c

theorem breaks_mono {a b : List Char} (h : a <+: b) :
    st.breaks widthForChar wrapWidth a ≤ st.breaks widthForChar wrapWidth b := by
  obtain ⟨rest, rfl⟩ := h
  rw [breaks_append]
  exact Nat.le_add_right _ _

end Wrapping

/-! ## The loop of `truncate_wrapped_line` -/

namespace Truncating

variable (widthForChar) in
/-- The state with a character more on the line, whether it fits or not. -/
def widened (t : Truncating X) (ix : Nat) (c : Char) : Truncating X :=
  { t.noteChar ix c with width := (t.noteChar ix c).width + widthForChar c }

omit [Field X] [LinearOrder X] in
theorem noteChar_frame (t : Truncating X) (ix : Nat) (c : Char) :
    (t.noteChar ix c).width = t.width ∧ (t.noteChar ix c).line = t.line ∧
      (t.noteChar ix c).indent = t.indent ∧ (t.noteChar ix c).lastWrapIx = t.lastWrapIx ∧
      (t.noteChar ix c).truncateIx = t.truncateIx := by
  unfold noteChar
  cases t.isCandidate c with
  | true =>
    simp only [if_true]
    split
    · exact ⟨rfl, rfl, rfl, rfl, rfl⟩
    · exact ⟨rfl, rfl, rfl, rfl, rfl⟩
  | false =>
    simp only [Bool.false_eq_true, if_false]
    split
    · exact ⟨rfl, rfl, rfl, rfl, rfl⟩
    · exact ⟨rfl, rfl, rfl, rfl, rfl⟩

end Truncating

variable {t : Truncating X} {ix : Nat} {c : Char} {rest : List Char}

/-- Before the last line the loop does what `wrap_line` does. -/
theorem truncationIx_before (hc : c ≠ '\n') (hline : t.line < maxLines - 1) :
    truncationIx widthForChar wrapWidth affixWidth maxLines t ix (c :: rest)
      = truncationIx widthForChar wrapWidth affixWidth maxLines
          { (if wrapWidth < (t.widened widthForChar ix c).width ∧
                (t.widened widthForChar ix c).lastWrapIx < ix then
              (t.widened widthForChar ix c).breakLine widthForChar ix (widthForChar c)
            else t.widened widthForChar ix c) with prevC := c } (ix + c.utf8Size) rest := by
  have hsame : (t.noteChar ix c).line < maxLines - 1 := by
    rw [(t.noteChar_frame ix c).2.1]
    exact hline
  rw [truncationIx, if_neg hc]
  rw [if_pos hsame]
  rfl

/-- On the last line a character that fits, and leaves room for the affix or not. -/
theorem truncationIx_last (hc : c ≠ '\n') (hline : ¬ t.line < maxLines - 1)
    (hfits : t.width + widthForChar c ≤ wrapWidth) :
    truncationIx widthForChar wrapWidth affixWidth maxLines t ix (c :: rest)
      = truncationIx widthForChar wrapWidth affixWidth maxLines
          { t.widened widthForChar ix c with
            prevC := c
            truncateIx := if t.width + widthForChar c + affixWidth ≤ wrapWidth then
                ix + c.utf8Size
              else t.truncateIx } (ix + c.utf8Size) rest := by
  obtain ⟨hwidth, hsame, _, _, hix⟩ := t.noteChar_frame ix c
  rw [truncationIx, if_neg hc]
  rw [if_neg (by rw [hsame]; exact hline), hwidth]
  by_cases haffix : t.width + widthForChar c + affixWidth ≤ wrapWidth
  · rw [if_pos haffix, if_pos haffix, if_neg (not_lt.2 hfits)]
    unfold Truncating.widened
    rw [hwidth]
  · rw [if_neg haffix, if_neg haffix, if_neg (not_lt.2 hfits), ← hix]
    unfold Truncating.widened
    rw [hwidth]

/-- On the last line the first character that does not fit ends the loop. -/
theorem truncationIx_over [IsStrictOrderedRing X] (haffix : 0 ≤ affixWidth) (hc : c ≠ '\n')
    (hline : ¬ t.line < maxLines - 1) (hover : wrapWidth < t.width + widthForChar c) :
    truncationIx widthForChar wrapWidth affixWidth maxLines t ix (c :: rest)
      = some t.truncateIx := by
  obtain ⟨hwidth, hsame, _, _, hix⟩ := t.noteChar_frame ix c
  have hroom : ¬ t.width + widthForChar c + affixWidth ≤ wrapWidth := by
    intro hle
    linarith
  rw [truncationIx, if_neg hc]
  rw [if_neg (by rw [hsame]; exact hline), hwidth, if_neg hroom, if_pos hover, hix]

/-! ## The two loops in lockstep -/

/-- The states of the two loops agree but for the previous character. -/
structure Follows (t : Truncating X) (st : Wrapping X) : Prop where
  width : t.width = st.width
  first : t.firstNonWhitespaceIx = st.firstNonWhitespaceIx
  indent : t.indent = st.indent
  candidateIx : t.lastCandidateIx = st.lastCandidateIx
  candidateWidth : t.lastCandidateWidth = st.lastCandidateWidth
  wrapIx : t.lastWrapIx = st.lastWrapIx

variable {st : Wrapping X} {S : Type}

omit [LinearOrder X] in
theorem follows_start : Follows (Truncating.start : Truncating X) start :=
  ⟨rfl, rfl, rfl, rfl, rfl, rfl⟩

omit [Field X] [LinearOrder X] in
/-- The previous character only matters for words. -/
theorem Follows.isCandidate (h : Follows t st)
    (hprev : isWordChar c = true → (st.prevC = ' ' ↔ t.prevC = ' ')) :
    t.isCandidate c = st.isCandidate c := by
  unfold Truncating.isCandidate Wrapping.isCandidate
  rw [h.first]
  by_cases hword : isWordChar c = true
  · have hspace : (t.prevC == ' ') = (st.prevC == ' ') := by
      rw [Bool.eq_iff_iff, beq_iff_eq, beq_iff_eq]
      exact (hprev hword).symm
    have hne : (c != ' ') = true := bne_iff_ne.2 (ne_space_of_isWordChar hword)
    rw [if_pos hword, if_pos hword, hspace, hne, Bool.and_true]
  · rw [if_neg hword, if_neg hword]

omit [LinearOrder X] in
variable (widthForChar) in
theorem Follows.widened (h : Follows t st)
    (hprev : isWordChar c = true → (st.prevC = ' ' ↔ t.prevC = ' ')) :
    Follows (t.widened widthForChar st.index c) (st.widened widthForChar c) := by
  have hcandidate : t.isCandidate c
      = ({ st with index := st.index + c.utf8Size } : Wrapping X).isCandidate c :=
    h.isCandidate hprev
  unfold Truncating.widened Truncating.noteChar Wrapping.widened Wrapping.noteChar
    Wrapping.noteCandidate
  rw [hcandidate]
  cases ({ st with index := st.index + c.utf8Size } : Wrapping X).isCandidate c with
  | true =>
    simp only [if_true, h.first]
    split
    · exact ⟨by simp only [h.width], rfl, h.indent, rfl, h.width, h.wrapIx⟩
    · exact ⟨by simp only [h.width], rfl, h.indent, rfl, h.width, h.wrapIx⟩
  | false =>
    simp only [Bool.false_eq_true, if_false, h.first]
    split
    · exact ⟨by simp only [h.width], rfl, h.indent, h.candidateIx, h.candidateWidth, h.wrapIx⟩
    · exact ⟨by simp only [h.width], h.first, h.indent, h.candidateIx, h.candidateWidth,
        h.wrapIx⟩

omit [Field X] [LinearOrder X] in
theorem Follows.withPrev (h : Follows t st) (c : Char) :
    Follows { t with prevC := c } st :=
  ⟨h.width, h.first, h.indent, h.candidateIx, h.candidateWidth, h.wrapIx⟩

variable (widthForChar) in
/-- The two breaks agree: the last candidate lies after the last break or is none. -/
theorem Follows.breakLine (h : Follows t st) (hplaced : st.Placed) (ix : Nat) (itemWidth : X) :
    Follows (t.breakLine widthForChar ix itemWidth) (st.breakLine widthForChar ix itemWidth) := by
  have hindent : t.nextIndent = st.nextIndent := by
    unfold Truncating.nextIndent
    rw [h.indent, h.first, h.wrapIx]
    unfold Wrapping.nextIndent
    cases st.indent with
    | some _ => rfl
    | none =>
      cases st.firstNonWhitespaceIx with
      | none => rfl
      | some _ => rfl
  unfold Truncating.breakLine Wrapping.breakLine
  dsimp only
  rw [hindent, h.candidateIx, h.wrapIx]
  cases hplaced.candidate with
  | inl hzero =>
    rw [if_neg (by omega), if_neg (by omega)]
    exact ⟨rfl, h.first, rfl, rfl, h.candidateWidth, rfl⟩
  | inr hcandidate =>
    obtain ⟨_, hlt, _, _⟩ := hcandidate
    rw [if_pos hlt, if_pos (by omega)]
    exact ⟨by dsimp only; rw [h.width, h.candidateWidth], h.first, rfl, rfl,
      h.candidateWidth, rfl⟩

omit [LinearOrder X] in
theorem Truncating.breakLine_line (t : Truncating X) (ix : Nat) (charWidth : X) :
    (t.breakLine widthForChar ix charWidth).line = t.line + 1 := by
  unfold Truncating.breakLine
  dsimp only
  split
  · rfl
  · rfl

/-- Before a word character `wrap_line` knows whether the previous one was a space, as
    long as the last line is not reached. -/
def PrevAgrees (widthForChar : Char → X) (wrapWidth : X) (maxLines : Nat)
    (text : List Char) : Prop :=
  ∀ front c d rest, text = front ++ c :: d :: rest → isWordChar d = true →
    (start : Wrapping X).breaks widthForChar wrapWidth (front ++ [c]) < maxLines - 1 →
    (((start : Wrapping X).after widthForChar wrapWidth (front ++ [c])).prevC = ' ' ↔ c = ' ')

variable (widthForChar wrapWidth) in
/-- The condition is empty for two lines: the first break reaches the last one. -/
theorem prevAgrees_two {text : List Char} (hnl : '\n' ∉ text) :
    PrevAgrees widthForChar wrapWidth 2 text := by
  intro front c d rest htext _ hnone
  have hc : c ≠ '\n' := fun heq => hnl (by simp [htext, heq])
  have hsnoc := Wrapping.breaks_snoc widthForChar wrapWidth start c front
  have hkeeps : ¬ ((start : Wrapping X).after widthForChar wrapWidth front).Overflows
      widthForChar wrapWidth c := by
    intro hover
    rw [(step_breaks hover).2] at hsnoc
    omega
  rw [Wrapping.after_append, Wrapping.after_cons, Wrapping.after_nil,
    Wrapping.step_keeps hc hkeeps]

variable (widthForChar wrapWidth) in
/-- After a text both loops are on the same line, in the same state. -/
structure InStep (t : Truncating X) (front : List Char) : Prop where
  follows : Follows t ((start : Wrapping X).after widthForChar wrapWidth front)
  line : t.line = (start : Wrapping X).breaks widthForChar wrapWidth front
  prevC : t.prevC = front.getLast?.getD '\x00'

theorem inStep_start : InStep widthForChar wrapWidth Truncating.start [] :=
  ⟨follows_start, rfl, rfl⟩

variable {front : List Char} {text truncationAffix : List Char} {runs : List (TextRun S)}

theorem InStep.prev_iff (h : InStep widthForChar wrapWidth t front)
    (hprev : PrevAgrees widthForChar wrapWidth maxLines (front ++ c :: rest))
    (hline : t.line < maxLines - 1) (hword : isWordChar c = true) :
    ((start : Wrapping X).after widthForChar wrapWidth front).prevC = ' ' ↔ t.prevC = ' ' := by
  rw [h.prevC]
  cases front using List.reverseRecOn with
  | nil => exact Iff.rfl
  | append_singleton front p =>
    rw [getLast?_concat, Option.getD_some]
    apply hprev front p c rest (by simp) hword
    rw [← h.line]
    exact hline

variable (affixWidth) in
/-- A character more, before the last line. -/
theorem InStep.step [IsStrictOrderedRing X] (h : InStep widthForChar wrapWidth t front)
    (hw : ∀ c, 0 ≤ widthForChar c)
    (hprev : PrevAgrees widthForChar wrapWidth maxLines (front ++ c :: rest)) (hc : c ≠ '\n')
    (hline : t.line < maxLines - 1) :
    ∃ t', InStep widthForChar wrapWidth t' (front ++ [c]) ∧
      truncationIx widthForChar wrapWidth affixWidth maxLines t (utf8Len front) (c :: rest)
        = truncationIx widthForChar wrapWidth affixWidth maxLines t' (utf8Len (front ++ [c]))
          rest := by
  obtain ⟨hplaced, _⟩ := placed_start.after wrapWidth hw front
  have hindex := index_after widthForChar wrapWidth start front
  have hzero : (start : Wrapping X).index + utf8Len front = utf8Len front := Nat.zero_add _
  rw [hzero] at hindex
  have hlen : utf8Len (front ++ [c]) = utf8Len front + c.utf8Size := by simp
  have hfollows := h.follows.widened widthForChar (h.prev_iff hprev hline)
  have hbreaks := Wrapping.breaks_append widthForChar wrapWidth start front [c]
  have hafter := Wrapping.after_append widthForChar wrapWidth start front [c]
  have hlineEq := h.line
  rw [hlen, ← hindex]
  generalize (start : Wrapping X).after widthForChar wrapWidth front = st at *
  obtain ⟨hwidth, _, hwrap, _⟩ := Wrapping.widened_frame widthForChar st c
  rw [truncationIx_before hc hline, hfollows.width, hfollows.wrapIx, hwidth, hwrap]
  refine ⟨_, ?_, rfl⟩
  rw [Wrapping.breaks_cons, Wrapping.breaks_nil, Nat.add_zero] at hbreaks
  rw [Wrapping.after_cons, Wrapping.after_nil] at hafter
  have hsame : (t.widened widthForChar st.index c).line = t.line :=
    (t.noteChar_frame st.index c).2.1
  have hlast : (front ++ [c]).getLast?.getD '\x00' = c := by simp
  by_cases hover : wrapWidth < st.width + widthForChar c ∧ st.lastWrapIx < st.index
  · obtain ⟨hstep, hone⟩ := step_breaks (⟨hc, hover⟩ : st.Overflows widthForChar wrapWidth c)
    have hbroken := hfollows.breakLine widthForChar (hplaced.widened hw c)
      st.index (widthForChar c)
    rw [if_pos hover]
    refine ⟨?_, ?_, hlast.symm⟩
    · rw [hafter, hstep]
      exact hbroken.withPrev c
    · dsimp only
      rw [Truncating.breakLine_line, hsame, hlineEq, hbreaks, hone]
  · have hstep := Wrapping.step_keeps hc fun h => hover h.2
    rw [if_neg hover]
    refine ⟨?_, ?_, hlast.symm⟩
    · rw [hafter, hstep]
      exact ⟨hfollows.width, hfollows.first, hfollows.indent, hfollows.candidateIx,
        hfollows.candidateWidth, hfollows.wrapIx⟩
    · dsimp only
      rw [hsame, hlineEq, hbreaks, hstep]
      rfl

variable (affixWidth) in
/-- Up to the last line: it is never reached, or the loops reach it together. -/
theorem truncationIx_run [IsStrictOrderedRing X] (hw : ∀ c, 0 ≤ widthForChar c)
    (front : List Char) (h : InStep widthForChar wrapWidth t front)
    (hprev : PrevAgrees widthForChar wrapWidth maxLines (front ++ rest)) (hnl : '\n' ∉ rest)
    (hline : t.line < maxLines - 1) :
    ((start : Wrapping X).breaks widthForChar wrapWidth (front ++ rest) < maxLines - 1 ∧
      truncationIx widthForChar wrapWidth affixWidth maxLines t (utf8Len front) rest = none) ∨
    ∃ reached ending t', front ++ rest = reached ++ ending ∧ reached ≠ [] ∧
      InStep widthForChar wrapWidth t' reached ∧ t'.line = maxLines - 1 ∧
      (∀ g, g <+: reached → g ≠ reached →
        (start : Wrapping X).breaks widthForChar wrapWidth g < maxLines - 1) ∧
      truncationIx widthForChar wrapWidth affixWidth maxLines t (utf8Len front) rest
        = truncationIx widthForChar wrapWidth affixWidth maxLines t' (utf8Len reached) ending := by
  induction rest generalizing front t with
  | nil =>
    left
    rw [append_nil, ← h.line]
    exact ⟨hline, rfl⟩
  | cons c rest ih =>
    have hc : c ≠ '\n' := fun heq => hnl (heq ▸ mem_cons_self)
    obtain ⟨t', hstep, hloop⟩ := h.step affixWidth hw hprev hc hline
    rw [hloop]
    have hsnoc := Wrapping.breaks_snoc widthForChar wrapWidth start c front
    rw [← h.line, ← hstep.line] at hsnoc
    have hone := Option.length_toList_le (o := (((start : Wrapping X).after widthForChar
      wrapWidth front).step widthForChar wrapWidth (.char c)).2)
    by_cases hlast : t'.line < maxLines - 1
    · have hassoc : front ++ c :: rest = front ++ [c] ++ rest := by simp
      rw [hassoc] at hprev ⊢
      exact ih (front ++ [c]) hstep hprev (fun hmem => hnl (mem_cons_of_mem c hmem)) hlast
    · -- this character is the first one with the last line reached
      right
      refine ⟨front ++ [c], rest, t', by simp, by simp, hstep, by omega, ?_, rfl⟩
      intro g hg hne
      have hbefore : g <+: front := by
        cases prefix_concat_iff.1 hg with
        | inl heq => exact absurd heq hne
        | inr hfront => exact hfront
      calc (start : Wrapping X).breaks widthForChar wrapWidth g
          ≤ (start : Wrapping X).breaks widthForChar wrapWidth front :=
            Wrapping.breaks_mono hbefore
        _ = t.line := h.line.symm
        _ < maxLines - 1 := hline

/-! ## The last line -/

/-- On the last line the two loops agree in the width, and a character that does not fit
    breaks the line. -/
structure LastLine (maxLines : Nat) (t : Truncating X) (st : Wrapping X) : Prop where
  width : t.width = st.width
  last : ¬ t.line < maxLines - 1
  wrap_lt : st.lastWrapIx < st.index

theorem LastLine.overflows_iff (h : LastLine maxLines t st) (hc : c ≠ '\n') :
    st.Overflows widthForChar wrapWidth c ↔ wrapWidth < t.width + widthForChar c := by
  rw [h.width]
  exact ⟨fun hover => hover.2.1, fun hover => ⟨hc, hover, h.wrap_lt⟩⟩

variable (affixWidth) in
/-- A character that fits. -/
theorem LastLine.step (rest : List Char) (h : LastLine maxLines t st) (hc : c ≠ '\n')
    (hkeeps : ¬ st.Overflows widthForChar wrapWidth c) :
    ∃ t', LastLine maxLines t' (st.step widthForChar wrapWidth (.char c)).1 ∧
      t'.truncateIx = (if t.width + widthForChar c + affixWidth ≤ wrapWidth then
        (st.step widthForChar wrapWidth (.char c)).1.index else t.truncateIx) ∧
      (st.step widthForChar wrapWidth (.char c)).1.width = st.width + widthForChar c ∧
      truncationIx widthForChar wrapWidth affixWidth maxLines t st.index (c :: rest)
        = truncationIx widthForChar wrapWidth affixWidth maxLines t'
          (st.step widthForChar wrapWidth (.char c)).1.index rest := by
  have hfits : t.width + widthForChar c ≤ wrapWidth := by
    rw [h.overflows_iff hc] at hkeeps
    exact not_lt.1 hkeeps
  have hindex := index_step widthForChar wrapWidth st c
  have hstep := Wrapping.step_keeps hc hkeeps
  obtain ⟨hwidth, _, hwrap, _⟩ := Wrapping.widened_frame widthForChar st c
  obtain ⟨hsame, hline, _, _, _⟩ := t.noteChar_frame st.index c
  rw [truncationIx_last hc h.last hfits, hindex]
  refine ⟨_, ⟨?_, ?_, ?_⟩, rfl, ?_, rfl⟩
  · rw [hstep]
    dsimp only [Truncating.widened]
    rw [hsame, h.width, hwidth]
  · dsimp only [Truncating.widened]
    rw [hline]
    exact h.last
  · have hlt := h.wrap_lt
    rw [hindex, hstep]
    dsimp only
    omega
  · rw [hstep]
    exact hwidth

theorem breaks_cons_keeps (hkeeps : ¬ st.Overflows widthForChar wrapWidth c) :
    st.breaks widthForChar wrapWidth (c :: rest)
      = (st.step widthForChar wrapWidth (.char c)).1.breaks widthForChar wrapWidth rest := by
  rw [Wrapping.breaks_cons]
  rcases step_cases st c with ⟨_, hstep⟩ | ⟨_, hstep⟩ | hover
  · rw [hstep]
    exact Nat.zero_add _
  · rw [hstep]
    exact Nat.zero_add _
  · exact absurd hover hkeeps

theorem breaks_cons_over (rest : List Char) (hover : st.Overflows widthForChar wrapWidth c) :
    0 < st.breaks widthForChar wrapWidth (c :: rest) := by
  rw [Wrapping.breaks_cons, (step_breaks hover).2]
  omega

/-- A rest that fits on the last line is not cut. -/
theorem LastLine.none (h : LastLine maxLines t st) (hnl : '\n' ∉ rest)
    (hbreaks : st.breaks widthForChar wrapWidth rest = 0) :
    truncationIx widthForChar wrapWidth affixWidth maxLines t st.index rest = none := by
  induction rest generalizing t st with
  | nil => rfl
  | cons c rest ih =>
    have hc : c ≠ '\n' := fun heq => hnl (heq ▸ mem_cons_self)
    have hkeeps : ¬ st.Overflows widthForChar wrapWidth c := by
      intro hover
      have hpos := breaks_cons_over rest hover
      omega
    obtain ⟨t', hlast, _, _, hloop⟩ := h.step affixWidth rest hc hkeeps
    rw [hloop]
    rw [breaks_cons_keeps hkeeps] at hbreaks
    exact ih hlast (fun hmem => hnl (mem_cons_of_mem c hmem)) hbreaks

/-- Where the affix has no room any more, the place to cut stays. -/
theorem LastLine.full [IsStrictOrderedRing X] (h : LastLine maxLines t st)
    (hw : ∀ c, 0 ≤ widthForChar c) (haffix : 0 ≤ affixWidth) (hnl : '\n' ∉ rest)
    (hfull : wrapWidth < t.width + affixWidth)
    (hbreaks : 0 < st.breaks widthForChar wrapWidth rest) :
    truncationIx widthForChar wrapWidth affixWidth maxLines t st.index rest
      = some t.truncateIx := by
  induction rest generalizing t st with
  | nil => simp at hbreaks
  | cons c rest ih =>
    have hc : c ≠ '\n' := fun heq => hnl (heq ▸ mem_cons_self)
    by_cases hover : st.Overflows widthForChar wrapWidth c
    · exact truncationIx_over haffix hc h.last ((h.overflows_iff hc).1 hover)
    · have hwc := hw c
      obtain ⟨t', hlast, hix, hwidth, hloop⟩ :=
        h.step affixWidth rest hc hover
      rw [if_neg (not_le.2 (by linarith))] at hix
      rw [hloop, ← hix]
      rw [breaks_cons_keeps hover] at hbreaks
      apply ih hlast (fun hmem => hnl (mem_cons_of_mem c hmem)) _ hbreaks
      rw [hlast.width, hwidth, ← h.width]
      linarith

/-- The cut is made after a text that leaves room for the affix, if there is one, or after
    a longer one that does. -/
theorem LastLine.kept [IsStrictOrderedRing X] (h : LastLine maxLines t st)
    (hw : ∀ c, 0 ≤ widthForChar c) (haffix : 0 ≤ affixWidth) (hnl : '\n' ∉ rest)
    (hbreaks : 0 < st.breaks widthForChar wrapWidth rest)
    {room : List Char} (hroom : room <+: rest) (hempty : room = [] → t.truncateIx = st.index)
    (hnone : st.breaks widthForChar wrapWidth room = 0)
    (hfits : (st.after widthForChar wrapWidth room).width + affixWidth ≤ wrapWidth) :
    ∃ kept, room <+: kept ∧ kept <+: rest ∧
      truncationIx widthForChar wrapWidth affixWidth maxLines t st.index rest
        = some (st.index + utf8Len kept) ∧
      st.breaks widthForChar wrapWidth kept = 0 ∧
      (st.after widthForChar wrapWidth kept).width + affixWidth ≤ wrapWidth := by
  induction rest generalizing t st room with
  | nil => simp at hbreaks
  | cons c rest ih =>
    have hc : c ≠ '\n' := fun heq => hnl (heq ▸ mem_cons_self)
    by_cases hover : st.Overflows widthForChar wrapWidth c
    · cases room with
      | nil =>
        refine ⟨[], nil_prefix, nil_prefix, ?_, rfl, hfits⟩
        rw [truncationIx_over haffix hc h.last ((h.overflows_iff hc).1 hover), hempty rfl]
        rfl
      | cons d room =>
        -- there is no text of the last line that ends behind the break
        obtain ⟨rfl, _⟩ := cons_prefix_cons.1 hroom
        have hpos := breaks_cons_over room hover
        omega
    · obtain ⟨t', hlast, hix, hwidth, hloop⟩ :=
        h.step affixWidth rest hc hover
      have hindex := index_step widthForChar wrapWidth st c
      have hnl' : '\n' ∉ rest := fun hmem => hnl (mem_cons_of_mem c hmem)
      rw [breaks_cons_keeps hover] at hbreaks
      by_cases hmore : t.width + widthForChar c + affixWidth ≤ wrapWidth
      · rw [if_pos hmore] at hix
        have hrest : ∃ kept, room.tail <+: kept ∧ kept <+: rest ∧
            truncationIx widthForChar wrapWidth affixWidth maxLines t'
              (st.step widthForChar wrapWidth (.char c)).1.index rest
              = some ((st.step widthForChar wrapWidth (.char c)).1.index + utf8Len kept) ∧
            (st.step widthForChar wrapWidth (.char c)).1.breaks widthForChar wrapWidth kept = 0 ∧
            ((st.step widthForChar wrapWidth (.char c)).1.after widthForChar wrapWidth kept).width
              + affixWidth ≤ wrapWidth := by
          cases room with
          | nil =>
            apply ih hlast hnl' hbreaks nil_prefix (fun _ => hix) rfl
            rw [Wrapping.after_nil, hwidth, ← h.width]
            exact hmore
          | cons d room =>
            obtain ⟨rfl, hprefix⟩ := cons_prefix_cons.1 hroom
            rw [breaks_cons_keeps hover] at hnone
            exact ih hlast hnl' hbreaks hprefix (fun _ => hix) hnone hfits
        obtain ⟨kept, hlonger, hkept, hcut, hzero, hroom'⟩ := hrest
        refine ⟨c :: kept, ?_, cons_prefix_cons.2 ⟨rfl, hkept⟩, ?_, ?_, hroom'⟩
        · cases room with
          | nil => exact nil_prefix
          | cons d room =>
            obtain ⟨rfl, _⟩ := cons_prefix_cons.1 hroom
            exact cons_prefix_cons.2 ⟨rfl, hlonger⟩
        · rw [hloop, hcut, hindex, utf8Len_cons, Nat.add_assoc]
        · rw [breaks_cons_keeps hover]
          exact hzero
      · rw [if_neg hmore] at hix
        cases room with
        | nil =>
          refine ⟨[], nil_prefix, nil_prefix, ?_, rfl, hfits⟩
          have hfull : wrapWidth < t'.width + affixWidth := by
            rw [hlast.width, hwidth, ← h.width]
            exact not_le.1 hmore
          rw [hloop, hlast.full hw haffix hnl' hfull hbreaks, hix, hempty rfl]
          rfl
        | cons d room =>
          -- the line only gets wider
          obtain ⟨rfl, _⟩ := cons_prefix_cons.1 hroom
          rw [breaks_cons_keeps hover] at hnone
          rw [Wrapping.after_cons] at hfits
          have hwider := (Wrapping.frame_of_breaks hw room hnone).1
          rw [hwidth, ← h.width] at hwider
          exact absurd (by linarith) hmore

/-! ## The cut -/

/-- What is not dropped stays, with everything before it. -/
theorem prefix_rdropWhile {p : Char → Bool} (before after : List Char) (hc : p c = false) :
    before ++ [c] <+: (before ++ c :: after).rdropWhile p := by
  induction after using List.reverseRecOn with
  | nil =>
    rw [rdropWhile_concat_neg p before c (by simp [hc])]
  | append_singleton after d ih =>
    rw [← cons_append, ← append_assoc, rdropWhile_concat]
    split
    · exact ih
    · exact ⟨after ++ [d], by simp⟩

theorem truncateAtEnd_append (kept rest affix : List Char) (runs : List (TextRun S)) :
    truncateAtEnd (kept ++ rest) (utf8Len kept) affix runs
      = .ok (kept.rdropWhile isTrimmed ++ affix,
          cutRuns (utf8Len affix) (utf8Len (kept.rdropWhile isTrimmed)) runs) := by
  have hsub : checkedSub (utf8Len (kept.rdropWhile isTrimmed ++ affix)) (utf8Len affix)
      = .ok (utf8Len (kept.rdropWhile isTrimmed)) := by
    unfold checkedSub
    rw [utf8Len_append, if_pos (Nat.le_add_left _ _), Nat.add_sub_cancel]
  unfold truncateAtEnd updateRunsAfterTruncation
  rw [sliceTo_append]
  simp only [Exec.ok_bind, hsub]
  rfl

/-- Some character of the last line leaves room for the affix, and up to there the last
    line has more than what is cut off before the affix. -/
def AffixFits (widthForChar : Char → X) (wrapWidth : X) (maxLines : Nat)
    (text truncationAffix : List Char) : Prop :=
  ∃ line d, line ++ [d] <+: text ∧
    (start : Wrapping X).breaks widthForChar wrapWidth line = maxLines - 1 ∧
    (start : Wrapping X).breaks widthForChar wrapWidth (line ++ [d]) = maxLines - 1 ∧
    ((start : Wrapping X).after widthForChar wrapWidth (line ++ [d])).width
      + textWidth widthForChar truncationAffix ≤ wrapWidth ∧
    ∃ before c after, line ++ [d] = before ++ c :: after ∧
      ((start : Wrapping X).after widthForChar wrapWidth line).lastWrapIx ≤ utf8Len before ∧
      isTrimmed c = false

/-- Read from the first text that reaches the last line. -/
theorem AffixFits.room [IsStrictOrderedRing X] {reached ending affix : List Char}
    (h : AffixFits widthForChar wrapWidth maxLines (reached ++ ending) affix)
    (hw : ∀ c, 0 ≤ widthForChar c)
    (hreached : (start : Wrapping X).breaks widthForChar wrapWidth reached = maxLines - 1)
    (hfirst : ∀ g, g <+: reached → g ≠ reached →
      (start : Wrapping X).breaks widthForChar wrapWidth g < maxLines - 1) :
    ∃ room before c after, room ≠ [] ∧ room <+: ending ∧
      ((start : Wrapping X).after widthForChar wrapWidth reached).breaks widthForChar wrapWidth
        room = 0 ∧
      (((start : Wrapping X).after widthForChar wrapWidth reached).after widthForChar wrapWidth
        room).width + textWidth widthForChar affix ≤ wrapWidth ∧
      reached ++ room = before ++ c :: after ∧
      ((start : Wrapping X).after widthForChar wrapWidth reached).lastWrapIx
        ≤ utf8Len before ∧
      isTrimmed c = false := by
  obtain ⟨line, d, hd, hline, hbreaks, hfits, before, c, after, hsplit, hbefore, hc⟩ := h
  -- the line of the affix goes on after what was read up to the last line
  have hprefix : reached <+: line := by
    have hle : line <+: reached ++ ending := (prefix_append line [d]).trans hd
    cases prefix_or_prefix_of_prefix hle (prefix_append reached ending) with
    | inr hle => exact hle
    | inl hle =>
      by_cases heq : line = reached
      · rw [heq]
      · have hlt := hfirst line hle heq
        omega
  obtain ⟨more, rfl⟩ := hprefix
  rw [Wrapping.breaks_append, hreached] at hline
  rw [append_assoc] at hd hbreaks hfits hsplit
  rw [Wrapping.breaks_append, hreached] at hbreaks
  rw [Wrapping.after_append] at hfits hbefore
  rw [(Wrapping.frame_of_breaks hw more (by omega)).2] at hbefore
  exact ⟨more ++ [d], before, c, after, by simp, (prefix_append_right_inj reached).1 hd,
    by omega, hfits, hsplit, hbefore, hc⟩

/-- The number of lines of a text. -/
def lineCount (widthForChar : Char → X) (text : List Char) (wrapWidth : X) : Nat :=
  (wrapLine widthForChar [.text text] wrapWidth).length + 1

theorem lineCount_eq (text : List Char) :
    lineCount widthForChar text wrapWidth
      = (start : Wrapping X).breaks widthForChar wrapWidth text + 1 := by
  unfold lineCount wrapLine Wrapping.breaks
  simp [LineFragment.wrapBoundaryCandidates]

/-- A text that is cut on the last line ends with the affix and has no more lines. -/
theorem breaks_cut [IsStrictOrderedRing X] (hw : ∀ c, 0 ≤ widthForChar c)
    {line kept affix : List Char} (hkept : line <+: kept)
    (hbreaks : (start : Wrapping X).breaks widthForChar wrapWidth kept
      = (start : Wrapping X).breaks widthForChar wrapWidth line)
    (hfits : ((start : Wrapping X).after widthForChar wrapWidth kept).width
      + textWidth widthForChar affix ≤ wrapWidth)
    {before after : List Char} (hsplit : kept = before ++ c :: after)
    (hlast : ((start : Wrapping X).after widthForChar wrapWidth line).lastWrapIx
      ≤ utf8Len before) (hc : isTrimmed c = false) :
    (start : Wrapping X).breaks widthForChar wrapWidth (kept.rdropWhile isTrimmed ++ affix)
      ≤ (start : Wrapping X).breaks widthForChar wrapWidth kept := by
  obtain ⟨dropped, hdropped⟩ := rdropWhile_prefix isTrimmed kept
  -- the last break lies before the character that stays
  have hwrap : ((start : Wrapping X).after widthForChar wrapWidth kept).lastWrapIx
      = ((start : Wrapping X).after widthForChar wrapWidth line).lastWrapIx := by
    obtain ⟨more, rfl⟩ := hkept
    rw [Wrapping.breaks_append] at hbreaks
    rw [Wrapping.after_append]
    exact (Wrapping.frame_of_breaks hw more (by omega)).2
  have hstays : utf8Len before < utf8Len (kept.rdropWhile isTrimmed) := by
    obtain ⟨more, hmore⟩ := prefix_rdropWhile before after hc
    have hsize := c.utf8Size_pos
    rw [hsplit, ← hmore, utf8Len_append, utf8Len_append, utf8Len_cons]
    omega
  have hinstead := Wrapping.breaks_instead widthForChar wrapWidth hw (kept.rdropWhile isTrimmed) dropped affix
  rw [hdropped] at hinstead
  exact hinstead (by omega) hfits

/-! ## Truncation agrees with wrapping -/

variable [FloorRing X]

theorem truncateWrappedLine_none (hmax : 2 ≤ maxLines)
    (hnone : truncationIx widthForChar wrapWidth (textWidth widthForChar truncationAffix) maxLines Truncating.start 0 text = none)
    : truncateWrappedLine widthForChar text wrapWidth maxLines truncationAffix runs .stop
      = .ok (text, runs) := by
  unfold truncateWrappedLine
  rw [if_neg (by simp; omega), if_neg (by simp)]
  simp only [hnone]

theorem truncateWrappedLine_some (hmax : 2 ≤ maxLines) {truncateIx : Nat}
    (hsome : truncationIx widthForChar wrapWidth (textWidth widthForChar truncationAffix) maxLines Truncating.start 0 text = some truncateIx)
    : truncateWrappedLine widthForChar text wrapWidth maxLines truncationAffix runs .stop
      = truncateAtEnd text truncateIx truncationAffix runs := by
  unfold truncateWrappedLine
  rw [if_neg (by simp; omega), if_neg (by simp)]
  simp only [hsome]

end LineWrapper

end Gpui
