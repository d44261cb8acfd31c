import Gpui.Text.Truncate
import Gpui.Text.Slices

/-! # The run of `wrap_line` over a text

    The state of the loop after a text, and how it changes from one character to the
    next: where the last break and the last candidate are, and how wide the line is. -/

namespace Gpui

namespace LineWrapper

variable {X : Type}

theorem textWidth_cons [Field X] (widthForChar : Char → X) (c : Char) (text : List Char) :
    textWidth widthForChar (c :: text) = widthForChar c + textWidth widthForChar text := by
  simp [textWidth]

namespace Wrapping

section Character

variable {st : Wrapping X}

theorem noteChar_frame (st : Wrapping X) (ix : Nat) (c : Char) :
    (st.noteChar ix c).width = st.width ∧ (st.noteChar ix c).indent = st.indent ∧
      (st.noteChar ix c).lastWrapIx = st.lastWrapIx ∧ (st.noteChar ix c).index = st.index := by
  unfold noteChar noteCandidate
  cases st.isCandidate c with
  | true =>
    simp only [if_true]
    split
    · exact ⟨rfl, rfl, rfl, rfl⟩
    · exact ⟨rfl, rfl, rfl, rfl⟩
  | false =>
    simp only [Bool.false_eq_true, if_false]
    split
    · exact ⟨rfl, rfl, rfl, rfl⟩
    · exact ⟨rfl, rfl, rfl, rfl⟩

theorem isSome_of_isCandidate {c : Char} (h : st.isCandidate c = true) :
    st.firstNonWhitespaceIx.isSome = true := by
  unfold isCandidate at h
  split at h
  · simp only [Bool.and_eq_true] at h
    exact h.2
  · simp only [Bool.and_eq_true] at h
    exact h.2

/-- The candidate stays, or the character is the new one. -/
theorem noteChar_candidate (st : Wrapping X) (ix : Nat) (c : Char) :
    ((st.noteChar ix c).lastCandidateIx = st.lastCandidateIx ∧
      (st.noteChar ix c).lastCandidateWidth = st.lastCandidateWidth) ∨
    (st.firstNonWhitespaceIx.isSome = true ∧ (st.noteChar ix c).lastCandidateIx = ix ∧
      (st.noteChar ix c).lastCandidateWidth = st.width) := by
  cases hcandidate : st.isCandidate c with
  | true =>
    refine Or.inr ⟨isSome_of_isCandidate hcandidate, ?_⟩
    unfold noteChar noteCandidate
    simp only [hcandidate, if_true]
    split
    · exact ⟨rfl, rfl⟩
    · exact ⟨rfl, rfl⟩
  | false =>
    left
    unfold noteChar
    simp only [hcandidate, Bool.false_eq_true, if_false]
    split
    · exact ⟨rfl, rfl⟩
    · exact ⟨rfl, rfl⟩

/-- The first character that is no space stays the first. -/
theorem noteChar_first (ix : Nat) (c : Char) (h : st.firstNonWhitespaceIx.isSome = true) :
    (st.noteChar ix c).firstNonWhitespaceIx = st.firstNonWhitespaceIx := by
  unfold noteChar noteCandidate
  cases st.isCandidate c with
  | true | false => simp [Option.isSome_iff_ne_none.1 h]

end Character

section Line

variable [Field X] (widthForChar : Char → X) {st : Wrapping X}

/-- The state with a character more on the line, whether it fits or not. -/
def widened (st : Wrapping X) (c : Char) : Wrapping X :=
  { { st with index := st.index + c.utf8Size }.noteChar st.index c with
    width := st.width + widthForChar c }

theorem widened_frame (st : Wrapping X) (c : Char) :
    (st.widened widthForChar c).width = st.width + widthForChar c ∧
      (st.widened widthForChar c).indent = st.indent ∧
      (st.widened widthForChar c).lastWrapIx = st.lastWrapIx ∧
      (st.widened widthForChar c).index = st.index + c.utf8Size := by
  obtain ⟨_, hindent, hwrap, hindex⟩ :=
    noteChar_frame { st with index := st.index + c.utf8Size } st.index c
  exact ⟨rfl, hindent, hwrap, hindex⟩

/-- The candidate stays, or the character is the new one. -/
theorem widened_candidate (st : Wrapping X) (c : Char) :
    ((st.widened widthForChar c).lastCandidateIx = st.lastCandidateIx ∧
      (st.widened widthForChar c).lastCandidateWidth = st.lastCandidateWidth) ∨
    (st.firstNonWhitespaceIx.isSome = true ∧
      (st.widened widthForChar c).lastCandidateIx = st.index ∧
      (st.widened widthForChar c).lastCandidateWidth = st.width) :=
  noteChar_candidate { st with index := st.index + c.utf8Size } st.index c

variable {widthForChar} in
theorem widened_first (c : Char) (h : st.firstNonWhitespaceIx.isSome = true) :
    (st.widened widthForChar c).firstNonWhitespaceIx = st.firstNonWhitespaceIx :=
  noteChar_first st.index c h

theorem breakLine_frame (st : Wrapping X) (ix : Nat) (itemWidth : X) :
    (st.breakLine widthForChar ix itemWidth).indent = st.nextIndent ∧
      (st.breakLine widthForChar ix itemWidth).firstNonWhitespaceIx = st.firstNonWhitespaceIx ∧
      (st.breakLine widthForChar ix itemWidth).index = st.index := by
  unfold breakLine
  split
  · exact ⟨rfl, rfl, rfl⟩
  · exact ⟨rfl, rfl, rfl⟩

/-- The line is broken at the candidate. -/
theorem breakLine_candidate (ix : Nat) (itemWidth : X) (h : 0 < st.lastCandidateIx) :
    (st.breakLine widthForChar ix itemWidth).lastWrapIx = st.lastCandidateIx ∧
      (st.breakLine widthForChar ix itemWidth).lastCandidateIx = 0 ∧
      (st.breakLine widthForChar ix itemWidth).width
        = st.width - st.lastCandidateWidth + indentWidth widthForChar st.nextIndent := by
  unfold breakLine
  rw [if_pos h]
  exact ⟨rfl, rfl, rfl⟩

/-- Without a candidate the line is broken before the item. -/
theorem breakLine_item (ix : Nat) (itemWidth : X) (h : st.lastCandidateIx = 0) :
    (st.breakLine widthForChar ix itemWidth).lastWrapIx = ix ∧
      (st.breakLine widthForChar ix itemWidth).lastCandidateIx = 0 ∧
      (st.breakLine widthForChar ix itemWidth).width
        = itemWidth + indentWidth widthForChar st.nextIndent := by
  unfold breakLine
  rw [if_neg (by omega)]
  exact ⟨rfl, h, rfl⟩

end Line

variable [Field X] [LinearOrder X] (widthForChar : Char → X) (wrapWidth : X)

/-- The state after a text. -/
def after (st : Wrapping X) (text : List Char) : Wrapping X :=
  text.foldl (fun st c => (st.step widthForChar wrapWidth (.char c)).1) st

/-- How often a line is broken in a text. -/
def breaks (st : Wrapping X) (text : List Char) : Nat :=
  (wrapFrom widthForChar wrapWidth st (text.map .char)).length

/-- A character is too much for the line. -/
def Overflows (st : Wrapping X) (c : Char) : Prop :=
  c ≠ '\n' ∧ wrapWidth < st.width + widthForChar c ∧ st.lastWrapIx < st.index

variable {widthForChar wrapWidth} {st : Wrapping X}

@[simp] theorem after_nil : st.after widthForChar wrapWidth [] = st := rfl

@[simp] theorem after_cons (c : Char) (text : List Char) :
    st.after widthForChar wrapWidth (c :: text)
      = (st.step widthForChar wrapWidth (.char c)).1.after widthForChar wrapWidth text := rfl

variable (widthForChar wrapWidth) in
theorem after_append (st : Wrapping X) (a b : List Char) :
    st.after widthForChar wrapWidth (a ++ b)
      = (st.after widthForChar wrapWidth a).after widthForChar wrapWidth b := by
  unfold after
  rw [List.foldl_append]

@[simp] theorem breaks_nil : st.breaks widthForChar wrapWidth [] = 0 := rfl

theorem breaks_cons (c : Char) (text : List Char) :
    st.breaks widthForChar wrapWidth (c :: text)
      = (st.step widthForChar wrapWidth (.char c)).2.toList.length
        + (st.step widthForChar wrapWidth (.char c)).1.breaks widthForChar wrapWidth text := by
  unfold breaks
  rw [List.map_cons, wrapFrom, List.length_append]

variable (widthForChar wrapWidth) in
theorem breaks_append (st : Wrapping X) (a b : List Char) :
    st.breaks widthForChar wrapWidth (a ++ b)
      = st.breaks widthForChar wrapWidth a
        + (st.after widthForChar wrapWidth a).breaks widthForChar wrapWidth b := by
  induction a generalizing st with
  | nil => simp
  | cons c rest ih =>
    rw [List.cons_append, breaks_cons, breaks_cons, ih, after_cons, Nat.add_assoc]

/-! ## One character -/

theorem step_newline :
    st.step widthForChar wrapWidth (.char '\n')
      = ({ st with index := st.index + 1 }, none) := rfl

theorem step_keeps {c : Char} (hc : c ≠ '\n') (h : ¬ st.Overflows widthForChar wrapWidth c) :
    st.step widthForChar wrapWidth (.char c)
      = ({ st.widened widthForChar c with prevC := c }, none) := by
  obtain ⟨hwidth, _, hwrap, _⟩ :=
    noteChar_frame { st with index := st.index + c.utf8Size } st.index c
  unfold step
  dsimp only [WrapBoundaryCandidate.lenUtf8]
  rw [if_neg hc]
  unfold advance
  rw [hwidth, if_neg]
  · rfl
  · rw [hwrap]
    exact fun hover => h ⟨hc, hover⟩

theorem step_breaks {c : Char} (h : st.Overflows widthForChar wrapWidth c) :
    (st.step widthForChar wrapWidth (.char c)).1
        = (st.widened widthForChar c).breakLine widthForChar st.index (widthForChar c) ∧
      (st.step widthForChar wrapWidth (.char c)).2.toList.length = 1 := by
  obtain ⟨hc, hover⟩ := h
  obtain ⟨hwidth, _, hwrap, _⟩ :=
    noteChar_frame { st with index := st.index + c.utf8Size } st.index c
  unfold step
  dsimp only [WrapBoundaryCandidate.lenUtf8]
  rw [if_neg hc]
  unfold advance
  rw [hwidth, if_pos]
  · exact ⟨rfl, rfl⟩
  · rw [hwrap]
    exact hover

/-- The cases of a step: a newline, one character more on the line, or a break. -/
theorem step_cases (st : Wrapping X) (c : Char) :
    (c = '\n' ∧ st.step widthForChar wrapWidth (.char c)
      = ({ st with index := st.index + 1 }, none)) ∨
    (¬ st.Overflows widthForChar wrapWidth c ∧ st.step widthForChar wrapWidth (.char c)
      = ({ st.widened widthForChar c with prevC := c }, none)) ∨
    st.Overflows widthForChar wrapWidth c := by
  by_cases hc : c = '\n'
  · subst hc
    exact Or.inl ⟨rfl, step_newline⟩
  · by_cases hover : st.Overflows widthForChar wrapWidth c
    · exact Or.inr (Or.inr hover)
    · exact Or.inr (Or.inl ⟨hover, step_keeps hc hover⟩)

variable (widthForChar wrapWidth) in
theorem index_step (st : Wrapping X) (c : Char) :
    (st.step widthForChar wrapWidth (.char c)).1.index = st.index + c.utf8Size := by
  rcases step_cases st c with ⟨hc, hstep⟩ | ⟨_, hstep⟩ | hover
  · rw [hstep, hc]
    rfl
  · rw [hstep]
    exact (widened_frame widthForChar st c).2.2.2
  · rw [(step_breaks hover).1, (breakLine_frame _ _ _ _).2.2]
    exact (widened_frame widthForChar st c).2.2.2

variable (widthForChar wrapWidth) in
theorem index_after (st : Wrapping X) (text : List Char) :
    (st.after widthForChar wrapWidth text).index = st.index + utf8Len text := by
  induction text generalizing st with
  | nil => rfl
  | cons c rest ih => rw [after_cons, ih, index_step, utf8Len_cons, Nat.add_assoc]

/-! ## Where the last break and the last candidate are -/

/-- The last break lies before the position, and the last candidate between the two. -/
structure Placed (st : Wrapping X) : Prop where
  wrap_le : st.lastWrapIx ≤ st.index
  wrap_lt : st.firstNonWhitespaceIx.isSome = true → st.lastWrapIx < st.index
  candidate : st.lastCandidateIx = 0 ∨
    (st.firstNonWhitespaceIx.isSome = true ∧ st.lastWrapIx < st.lastCandidateIx ∧
      st.lastCandidateIx < st.index ∧ st.lastCandidateWidth ≤ st.width)

theorem placed_start : (start : Wrapping X).Placed where
  wrap_le := Nat.le_refl 0
  wrap_lt := by simp [start]
  candidate := Or.inl rfl

theorem Placed.widened [IsStrictOrderedRing X] (h : st.Placed) (hw : ∀ c, 0 ≤ widthForChar c)
    (c : Char) : (st.widened widthForChar c).Placed := by
  obtain ⟨hwidth, _, hwrap, hindex⟩ := widened_frame widthForChar st c
  have hsize := c.utf8Size_pos
  have hle := h.wrap_le
  have hc := hw c
  constructor
  · rw [hwrap, hindex]
    omega
  · intro _
    omega
  · cases widened_candidate widthForChar st c with
    | inl hsame =>
      -- the candidate is the one of before
      rw [hsame.1, hsame.2, hwrap, hindex, hwidth]
      cases h.candidate with
      | inl hzero => exact Or.inl hzero
      | inr hplaced =>
        obtain ⟨hfirst, hlt, hindex, hwidth⟩ := hplaced
        rw [widened_first c hfirst]
        exact Or.inr ⟨hfirst, hlt, by omega, by linarith⟩
    | inr hnew =>
      obtain ⟨hfirst, hix, hcandidateWidth⟩ := hnew
      rw [hix, hcandidateWidth, hwrap, hindex, hwidth, widened_first c hfirst]
      exact Or.inr ⟨hfirst, h.wrap_lt hfirst, by omega, by linarith⟩

variable (widthForChar) in
/-- A line is broken before the position, at or after the last break. -/
theorem Placed.breakLine (ix : Nat) (itemWidth : X) (h : st.Placed)
    (hle : st.lastWrapIx ≤ ix) (hlt : ix < st.index) :
    (st.breakLine widthForChar ix itemWidth).Placed ∧
      st.lastWrapIx ≤ (st.breakLine widthForChar ix itemWidth).lastWrapIx ∧
      (st.breakLine widthForChar ix itemWidth).lastWrapIx < st.index := by
  obtain ⟨_, _, hindex⟩ := breakLine_frame widthForChar st ix itemWidth
  cases h.candidate with
  | inl hzero =>
    obtain ⟨hwrap, hcandidate, _⟩ := breakLine_item widthForChar ix itemWidth hzero
    refine ⟨⟨?_, ?_, Or.inl hcandidate⟩, by omega, by omega⟩
    · omega
    · omega
  | inr hplaced =>
    obtain ⟨_, hbefore, hafter, _⟩ := hplaced
    obtain ⟨hwrap, hcandidate, _⟩ :=
      breakLine_candidate widthForChar ix itemWidth (Nat.zero_lt_of_lt hbefore)
    refine ⟨⟨?_, ?_, Or.inl hcandidate⟩, by omega, by omega⟩
    · omega
    · omega

variable (wrapWidth) in
/-- A step keeps the invariant, and the last break does not move back. -/
theorem Placed.step [IsStrictOrderedRing X] (h : st.Placed) (hw : ∀ c, 0 ≤ widthForChar c)
    (c : Char) : (st.step widthForChar wrapWidth (.char c)).1.Placed ∧
      st.lastWrapIx ≤ (st.step widthForChar wrapWidth (.char c)).1.lastWrapIx := by
  have hwidened := h.widened hw c
  obtain ⟨_, _, hwrap, hindex⟩ := widened_frame widthForChar st c
  rcases step_cases st c with ⟨_, hstep⟩ | ⟨_, hstep⟩ | hover
  · rw [hstep]
    have hle := h.wrap_le
    refine ⟨⟨Nat.le_succ_of_le hle, fun _ => Nat.lt_succ_of_le hle, ?_⟩, le_refl _⟩
    cases h.candidate with
    | inl hzero => exact Or.inl hzero
    | inr hplaced =>
      obtain ⟨hfirst, hlt, hindex, hwidth⟩ := hplaced
      exact Or.inr ⟨hfirst, hlt, Nat.lt_succ_of_lt hindex, hwidth⟩
  · rw [hstep]
    exact ⟨⟨hwidened.wrap_le, hwidened.wrap_lt, hwidened.candidate⟩, hwrap.ge⟩
  · rw [(step_breaks hover).1]
    have hsize := c.utf8Size_pos
    obtain ⟨hplaced, hle, _⟩ := hwidened.breakLine widthForChar st.index (widthForChar c)
      (hwrap.trans_le h.wrap_le) (by omega)
    exact ⟨hplaced, hwrap.ge.trans hle⟩

/-- A break lies before the position. -/
theorem Placed.wrap_lt_step [IsStrictOrderedRing X] (h : st.Placed)
    (hw : ∀ c, 0 ≤ widthForChar c) (c : Char) :
    (st.step widthForChar wrapWidth (.char c)).1.lastWrapIx
      < (st.step widthForChar wrapWidth (.char c)).1.index := by
  have hsize := c.utf8Size_pos
  have hle := h.wrap_le
  have hbefore : st.lastWrapIx < st.index + c.utf8Size := by omega
  have hindex := index_step widthForChar wrapWidth st c
  obtain ⟨_, _, hwrap, hsame⟩ := widened_frame widthForChar st c
  rw [hindex]
  rcases step_cases st c with ⟨_, hstep⟩ | ⟨_, hstep⟩ | hover
  · rw [hstep]
    exact hbefore
  · rw [hstep]
    exact hwrap.trans_lt hbefore
  · rw [(step_breaks hover).1]
    obtain ⟨_, _, hlt⟩ := (h.widened hw c).breakLine widthForChar st.index (widthForChar c)
      (hwrap.trans_le hle) (by omega)
    exact hlt.trans_eq hsame

variable (wrapWidth) in
theorem Placed.after [IsStrictOrderedRing X] (h : st.Placed) (hw : ∀ c, 0 ≤ widthForChar c)
    (text : List Char) : (st.after widthForChar wrapWidth text).Placed ∧
      st.lastWrapIx ≤ (st.after widthForChar wrapWidth text).lastWrapIx := by
  induction text generalizing st with
  | nil => exact ⟨h, le_refl _⟩
  | cons c rest ih =>
    obtain ⟨hstep, hle⟩ := h.step wrapWidth hw c
    obtain ⟨hafter, hle'⟩ := ih hstep
    exact ⟨hafter, hle.trans hle'⟩

/-! ## Breaks that do not come -/

theorem textWidth_nonneg [IsStrictOrderedRing X] (hw : ∀ c, 0 ≤ widthForChar c)
    (text : List Char) : 0 ≤ textWidth widthForChar text := by
  apply List.sum_nonneg
  intro width hmem
  obtain ⟨c, _, rfl⟩ := List.mem_map.1 hmem
  exact hw c

/-- A text that fits on the rest of the line does not break it. -/
theorem breaks_of_fits [IsStrictOrderedRing X] (hw : ∀ c, 0 ≤ widthForChar c)
    (text : List Char) (h : st.width + textWidth widthForChar text ≤ wrapWidth) :
    st.breaks widthForChar wrapWidth text = 0 := by
  induction text generalizing st with
  | nil => rfl
  | cons c rest ih =>
    rw [textWidth_cons] at h
    have hc := hw c
    have hrest := textWidth_nonneg hw rest
    rw [breaks_cons]
    rcases step_cases st c with ⟨_, hstep⟩ | ⟨_, hstep⟩ | hover
    · rw [hstep]
      have hnone := @ih { st with index := st.index + 1 } (by dsimp only; linarith)
      simpa using hnone
    · rw [hstep]
      have hwidth := (widened_frame widthForChar st c).1
      have hnone := @ih { st.widened widthForChar c with prevC := c }
        (by dsimp only; rw [hwidth]; linarith)
      simpa using hnone
    · exact absurd hover.2.1 (not_lt.2 (by linarith))

omit [LinearOrder X] in
theorem nextIndent_widened (c : Char) (h : st.firstNonWhitespaceIx.isSome = true) :
    (st.widened widthForChar c).nextIndent = st.nextIndent := by
  obtain ⟨_, hindent, hwrap, _⟩ := widened_frame widthForChar st c
  unfold nextIndent
  rw [widened_first c h, hindent, hwrap]

omit [Field X] in
theorem Placed.of_pos (h : st.Placed) (hcandidate : 0 < st.lastCandidateIx) :
    st.firstNonWhitespaceIx.isSome = true ∧ st.lastCandidateWidth ≤ st.width := by
  cases h.candidate with
  | inl hzero => omega
  | inr hplaced => exact ⟨hplaced.1, hplaced.2.2.2⟩

variable (widthForChar) in
/-- The width of what a break at the candidate would leave on the line. -/
def carried (st : Wrapping X) : X :=
  st.width - st.lastCandidateWidth + indentWidth widthForChar st.nextIndent

variable (widthForChar) in
/-- With a candidate on the line, a character widens what a break would leave by its own
    width, or is a new candidate and leaves less. -/
theorem carried_widened (h : st.Placed) (hcandidate : 0 < st.lastCandidateIx) (c : Char) :
    ((st.widened widthForChar c).lastCandidateIx = st.lastCandidateIx ∧
      (st.widened widthForChar c).carried widthForChar
        = st.carried widthForChar + widthForChar c) ∨
    ((st.widened widthForChar c).lastCandidateIx = st.index ∧
      (st.widened widthForChar c).carried widthForChar
        = widthForChar c + indentWidth widthForChar st.nextIndent) := by
  obtain ⟨hfirst, _⟩ := h.of_pos hcandidate
  obtain ⟨hwidth, _, _, _⟩ := widened_frame widthForChar st c
  unfold carried
  rw [nextIndent_widened c hfirst, hwidth]
  cases widened_candidate widthForChar st c with
  | inl hsame =>
    rw [hsame.1, hsame.2]
    exact Or.inl ⟨rfl, by ring⟩
  | inr hnew =>
    rw [hnew.2.1, hnew.2.2]
    exact Or.inr ⟨rfl, by ring⟩

variable (widthForChar) in
theorem carried_widened_le [IsStrictOrderedRing X] (h : st.Placed)
    (hcandidate : 0 < st.lastCandidateIx) (c : Char) :
    0 < (st.widened widthForChar c).lastCandidateIx ∧
      (st.widened widthForChar c).carried widthForChar
        ≤ st.carried widthForChar + widthForChar c := by
  obtain ⟨hfirst, hle⟩ := h.of_pos hcandidate
  have hlt := h.wrap_lt hfirst
  cases carried_widened widthForChar h hcandidate c with
  | inl hsame =>
    rw [hsame.1, hsame.2]
    exact ⟨hcandidate, le_refl _⟩
  | inr hnew =>
    rw [hnew.1, hnew.2]
    unfold carried
    exact ⟨by omega, by linarith⟩

/-- A text that fits on what a break would leave breaks the line at most once. -/
theorem breaks_of_carried [IsStrictOrderedRing X] (hw : ∀ c, 0 ≤ widthForChar c)
    (text : List Char) (hplaced : st.Placed) (hcandidate : 0 < st.lastCandidateIx)
    (h : st.carried widthForChar + textWidth widthForChar text ≤ wrapWidth) :
    st.breaks widthForChar wrapWidth text ≤ 1 := by
  induction text generalizing st with
  | nil => simp
  | cons c rest ih =>
    rw [textWidth_cons] at h
    rw [breaks_cons]
    have hc := hw c
    obtain ⟨hstill, _⟩ := hplaced.step wrapWidth hw c
    obtain ⟨hpos, hle⟩ := carried_widened_le widthForChar hplaced hcandidate c
    rcases step_cases st c with ⟨_, hstep⟩ | ⟨_, hstep⟩ | hover
    · rw [hstep] at hstill ⊢
      have hsame : { st with index := st.index + 1 }.carried widthForChar
          = st.carried widthForChar := rfl
      have := ih hstill hcandidate (by rw [hsame]; linarith)
      simpa using this
    · rw [hstep] at hstill ⊢
      have hsame : { st.widened widthForChar c with prevC := c }.carried widthForChar
          = (st.widened widthForChar c).carried widthForChar := rfl
      have := ih hstill hpos (by rw [hsame]; linarith)
      simpa using this
    · -- the line is broken here, and what is left fits
      obtain ⟨hline, hone⟩ := step_breaks hover
      obtain ⟨_, _, hwidth⟩ := breakLine_candidate widthForChar st.index (widthForChar c) hpos
      have hfits : ((st.widened widthForChar c).breakLine widthForChar st.index
          (widthForChar c)).width = (st.widened widthForChar c).carried widthForChar := hwidth
      rw [hone, hline, breaks_of_fits hw rest (by rw [hfits]; linarith)]

/-! ## A last break that lies before a position

    When a text has been read from a position on and the last break still lies before
    that position, the line was broken at most once, at the candidate it came with. -/

/-- No candidate before a position. -/
def NoneBefore (st : Wrapping X) (bound : Nat) : Prop :=
  st.lastCandidateIx = 0 ∨ bound ≤ st.lastCandidateIx

variable {bound : Nat}

omit [LinearOrder X] in
variable (widthForChar) in
theorem NoneBefore.widened (h : st.NoneBefore bound) (hbound : bound ≤ st.index) (c : Char) :
    (st.widened widthForChar c).NoneBefore bound := by
  unfold NoneBefore
  cases widened_candidate widthForChar st c with
  | inl hsame =>
    rw [hsame.1]
    exact h
  | inr hnew =>
    rw [hnew.2.1]
    exact Or.inr hbound

omit [LinearOrder X] in
variable (widthForChar) in
theorem NoneBefore.le_breakLine {ix : Nat} (h : st.NoneBefore bound) (hbound : bound ≤ ix)
    (itemWidth : X) :
    bound ≤ (st.breakLine widthForChar ix itemWidth).lastWrapIx := by
  by_cases hcandidate : 0 < st.lastCandidateIx
  · rw [(breakLine_candidate widthForChar ix itemWidth hcandidate).1]
    cases h with
    | inl hzero => omega
    | inr hle => exact hle
  · rw [(breakLine_item widthForChar ix itemWidth (by omega)).1]
    exact hbound

variable (wrapWidth) in
/-- Without a candidate before the position, the line is not broken. -/
theorem NoneBefore.breaks [IsStrictOrderedRing X] (hw : ∀ c, 0 ≤ widthForChar c)
    (text : List Char) (hplaced : st.Placed) (h : st.NoneBefore bound) (hbound : bound ≤ st.index)
    (hlast : (st.after widthForChar wrapWidth text).lastWrapIx < bound) :
    st.breaks widthForChar wrapWidth text = 0 ∧
      st.width ≤ (st.after widthForChar wrapWidth text).width := by
  induction text generalizing st with
  | nil => exact ⟨rfl, le_refl _⟩
  | cons c rest ih =>
    rw [after_cons] at hlast ⊢
    rw [breaks_cons]
    have hc := hw c
    obtain ⟨hstill, _⟩ := hplaced.step wrapWidth hw c
    have hindex := index_step widthForChar wrapWidth st c
    rcases step_cases st c with ⟨_, hstep⟩ | ⟨_, hstep⟩ | hover
    · rw [hstep] at hstill hlast hindex ⊢
      obtain ⟨hnone, hle⟩ := ih hstill h (by omega) hlast
      exact ⟨by simpa using hnone, hle⟩
    · rw [hstep] at hstill hlast hindex ⊢
      obtain ⟨hnone, hle⟩ := ih hstill (h.widened widthForChar hbound c) (by omega) hlast
      refine ⟨by simpa using hnone, le_trans ?_ hle⟩
      dsimp only
      rw [(widened_frame widthForChar st c).1]
      linarith
    · -- a break would lie at the position or behind it, and stay there
      rw [(step_breaks hover).1] at hstill hlast
      have hbehind := (h.widened widthForChar hbound c).le_breakLine widthForChar hbound
        (widthForChar c)
      have hstays := (hstill.after wrapWidth hw rest).2
      omega

/-- The line is not broken, or once, at the candidate it came with. -/
theorem breaks_from [IsStrictOrderedRing X] (hw : ∀ c, 0 ≤ widthForChar c) (text : List Char)
    (hplaced : st.Placed) (hbound : bound ≤ st.index)
    (hlast : (st.after widthForChar wrapWidth text).lastWrapIx < bound) :
    (st.breaks widthForChar wrapWidth text = 0 ∧
      st.width ≤ (st.after widthForChar wrapWidth text).width) ∨
    (st.breaks widthForChar wrapWidth text = 1 ∧ 0 < st.lastCandidateIx ∧
      st.carried widthForChar ≤ (st.after widthForChar wrapWidth text).width) := by
  induction text generalizing st with
  | nil => exact Or.inl ⟨rfl, le_refl _⟩
  | cons c rest ih =>
    by_cases hcandidate : st.lastCandidateIx = 0
    · left
      exact NoneBefore.breaks wrapWidth hw _ hplaced (Or.inl hcandidate) hbound hlast
    have hpos : 0 < st.lastCandidateIx := Nat.pos_of_ne_zero hcandidate
    rw [after_cons] at hlast ⊢
    rw [breaks_cons]
    have hc := hw c
    have hwidth := (widened_frame widthForChar st c).1
    obtain ⟨hstill, _⟩ := hplaced.step wrapWidth hw c
    have hindex := index_step widthForChar wrapWidth st c
    rcases step_cases st c with ⟨_, hstep⟩ | ⟨_, hstep⟩ | hover
    · rw [hstep] at hstill hlast hindex ⊢
      simp only [Option.toList_none, List.length_nil, Nat.zero_add]
      exact ih hstill (Nat.le_succ_of_le hbound) hlast
    · rw [hstep] at hstill hlast hindex ⊢
      cases carried_widened widthForChar hplaced hpos c with
      | inl hsame =>
        have hcarried : { st.widened widthForChar c with prevC := c }.carried widthForChar
            = st.carried widthForChar + widthForChar c := hsame.2
        cases ih hstill (by omega) hlast with
        | inl hnone =>
          left
          refine ⟨by simpa using hnone.1, le_trans ?_ hnone.2⟩
          linarith
        | inr hone =>
          right
          exact ⟨by simpa using hone.1, hpos, le_trans (by linarith) hone.2.2⟩
      | inr hnew =>
        -- the candidate now lies behind the position
        have hnone : { st.widened widthForChar c with prevC := c }.NoneBefore bound :=
          Or.inr (hnew.1.ge.trans' hbound)
        obtain ⟨hzero, hle⟩ := hnone.breaks wrapWidth hw rest hstill (by omega) hlast
        left
        refine ⟨by simpa using hzero, le_trans ?_ hle⟩
        linarith
    · obtain ⟨hline, hone⟩ := step_breaks hover
      have hstays := (hstill.after wrapWidth hw rest).2
      rw [hline] at hstill hlast hindex hstays ⊢
      cases carried_widened widthForChar hplaced hpos c with
      | inl hsame =>
        -- broken at the candidate, and not again
        obtain ⟨_, hzero, hleft⟩ := breakLine_candidate widthForChar st.index (widthForChar c)
          (hsame.1.symm ▸ hpos)
        have hleft : ((st.widened widthForChar c).breakLine widthForChar st.index
            (widthForChar c)).width = (st.widened widthForChar c).carried widthForChar := hleft
        obtain ⟨hnone, hle⟩ :=
          NoneBefore.breaks wrapWidth hw rest hstill (Or.inl hzero) (by omega) hlast
        right
        exact ⟨by omega, hpos, by linarith [hsame.2]⟩
      | inr hnew =>
        -- the break would lie behind the position, and stay there
        have hnone : (st.widened widthForChar c).NoneBefore bound :=
          Or.inr (hnew.1.ge.trans' hbound)
        have hbehind := hnone.le_breakLine widthForChar hbound (widthForChar c)
        omega

variable (widthForChar wrapWidth) in
/-- A text may go on with another one instead, if that fits where the first one ended: it
    is broken no more often. -/
theorem breaks_instead [IsStrictOrderedRing X] (hw : ∀ c, 0 ≤ widthForChar c)
    (kept rest instead : List Char)
    (hlast : ((start : Wrapping X).after widthForChar wrapWidth (kept ++ rest)).lastWrapIx
      < utf8Len kept)
    (hfits : ((start : Wrapping X).after widthForChar wrapWidth (kept ++ rest)).width
      + textWidth widthForChar instead ≤ wrapWidth) :
    (start : Wrapping X).breaks widthForChar wrapWidth (kept ++ instead)
      ≤ (start : Wrapping X).breaks widthForChar wrapWidth (kept ++ rest) := by
  rw [after_append] at hlast hfits
  rw [breaks_append, breaks_append]
  have hindex := index_after widthForChar wrapWidth start kept
  obtain ⟨hplaced, _⟩ := placed_start.after wrapWidth hw kept
  generalize (start : Wrapping X).after widthForChar wrapWidth kept = st at *
  cases breaks_from hw rest hplaced (by rw [hindex]; omega) hlast with
  | inl hnone =>
    rw [breaks_of_fits hw instead (by linarith [hnone.2])]
    omega
  | inr hone =>
    have hle : st.breaks widthForChar wrapWidth instead ≤ 1 :=
      breaks_of_carried hw instead hplaced hone.2.1 (by linarith [hone.2.2])
    omega

end Wrapping

end LineWrapper

end Gpui
