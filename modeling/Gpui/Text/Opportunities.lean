import Gpui.Text.WrapSpec

/-! # Where `wrap_line` breaks a line

    A line is broken where it may be broken, and elsewhere only when no such place lies
    on it.  The loop keeps the last place in `lastCandidateIx`, and finds the places with
    the previous character it remembers; it does not remember the character that it breaks
    a line at, so that after a space it then misses a word. -/

namespace Gpui

open List

namespace LineWrapper

/-! ## Section 1: Places in a text -/

/-- The character before a position, newlines apart. -/
def prevChar (before : List Char) : Option Char :=
  (before.filter (fun c => c != '\n')).getLast?

/-- Some character is neither a space nor a newline: the indent of the text is over. -/
def IndentEnds (before : List Char) : Prop :=
  ∃ c ∈ before, c ≠ ' ' ∧ c ≠ '\n'

/-- After `before` a line may be broken at `c`: a word after a space, or a character that is
    no part of a word, in both cases after the indent. -/
def MayBreak (before : List Char) (c : Char) : Prop :=
  c ≠ ' ' ∧ c ≠ '\n' ∧ (isWordChar c = true → prevChar before = some ' ') ∧ IndentEnds before

/-- A character of the text starts at an index. -/
def StartsChar (text : List Char) (ix : Nat) : Prop :=
  ∃ before c rest, text = before ++ c :: rest ∧ utf8Len before = ix

/-- The line may be broken at an index. -/
def Opportunity (text : List Char) (ix : Nat) : Prop :=
  ∃ before c rest, text = before ++ c :: rest ∧ utf8Len before = ix ∧ MayBreak before c

theorem prevChar_append (before : List Char) {c : Char} (hc : c ≠ '\n') :
    prevChar (before ++ [c]) = some c := by
  unfold prevChar
  rw [filter_append, filter_cons_of_pos (by simpa using hc), filter_nil,
    getLast?_concat]

theorem prevChar_append_newline (before : List Char) :
    prevChar (before ++ ['\n']) = prevChar before := by
  unfold prevChar
  rw [filter_append, filter_cons_of_neg (by simp), filter_nil, append_nil]

theorem indentEnds_append (before : List Char) {c : Char} (hc : c ≠ '\n') :
    IndentEnds (before ++ [c]) ↔ IndentEnds before ∨ c ≠ ' ' := by
  constructor
  · rintro ⟨b, hmem, hspace, hnewline⟩
    cases mem_append.1 hmem with
    | inl hold => exact Or.inl ⟨b, hold, hspace, hnewline⟩
    | inr hnew =>
      rw [mem_singleton] at hnew
      subst hnew
      exact Or.inr hspace
  · intro h
    cases h with
    | inl hold =>
      obtain ⟨b, hmem, hb⟩ := hold
      exact ⟨b, mem_append_left _ hmem, hb⟩
    | inr hspace => exact ⟨c, by simp, hspace, hc⟩

theorem indentEnds_append_newline (before : List Char) :
    IndentEnds (before ++ ['\n']) ↔ IndentEnds before := by
  constructor
  · rintro ⟨b, hmem, hspace, hnewline⟩
    cases mem_append.1 hmem with
    | inl hold => exact ⟨b, hold, hspace, hnewline⟩
    | inr hnew => exact absurd (mem_singleton.1 hnew) hnewline
  · rintro ⟨b, hmem, hb⟩
    exact ⟨b, mem_append_left _ hmem, hb⟩

/-- A text before another start of a character lies within the text before it. -/
theorem prefix_of_startsChar {before before' rest rest' : List Char} {c c' : Char}
    (h : before ++ c :: rest = before' ++ c' :: rest')
    (hlt : utf8Len before' < utf8Len before + c.utf8Size) :
    utf8Len before' < utf8Len before ∨ (before' = before ∧ c' = c) := by
  rcases append_eq_append_iff.1 h with ⟨between, hbefore, hrest⟩ | ⟨between, hbefore, hrest⟩
  · cases between with
    | nil =>
      rw [append_nil] at hbefore
      rw [nil_append, List.cons.injEq] at hrest
      exact Or.inr ⟨hbefore, hrest.1.symm⟩
    | cons b between =>
      -- `c` would lie before the position
      rw [cons_append, List.cons.injEq] at hrest
      rw [hbefore, utf8Len_append, utf8Len_cons, ← hrest.1] at hlt
      omega
  · cases between with
    | nil =>
      rw [append_nil] at hbefore
      rw [nil_append, List.cons.injEq] at hrest
      exact Or.inr ⟨hbefore.symm, hrest.1⟩
    | cons b between =>
      left
      have hsize := b.utf8Size_pos
      rw [hbefore, utf8Len_append, utf8Len_cons]
      omega

/-- An opportunity up to a character lies before it, or is the character. -/
theorem Opportunity.last {before rest : List Char} {c : Char} {ix : Nat}
    (h : Opportunity (before ++ c :: rest) ix) (hlt : ix < utf8Len before + c.utf8Size) :
    ix < utf8Len before ∨ (ix = utf8Len before ∧ MayBreak before c) := by
  obtain ⟨before', c', rest', htext, hix, hmay⟩ := h
  rw [← hix] at hlt
  cases prefix_of_startsChar htext hlt with
  | inl hbefore => exact Or.inl (hix ▸ hbefore)
  | inr hsame =>
    obtain ⟨rfl, rfl⟩ := hsame
    exact Or.inr ⟨hix.symm, hmay⟩

variable {X : Type} [Field X] [LinearOrder X]

section Missed

variable (widthForChar : Char → X) (wrapWidth : X)

/-- A line is broken when `c` comes after `before`. -/
def BrokenAt (before : List Char) (c : Char) : Prop :=
  (wrapLine widthForChar [.text (before ++ [c])] wrapWidth).length
    ≠ (wrapLine widthForChar [.text before] wrapWidth).length

/-- The text ends with a space that a line is broken at. -/
def BrokenAtSpace (before : List Char) : Prop :=
  ∃ front newlines, before = front ++ ' ' :: newlines ∧ (∀ c ∈ newlines, c = '\n') ∧
    BrokenAt widthForChar wrapWidth front ' '

/-- A word starts at an index, after a space that a line is broken at. -/
def Missed (text : List Char) (ix : Nat) : Prop :=
  ∃ before c rest, text = before ++ c :: rest ∧ utf8Len before = ix ∧ isWordChar c = true ∧
    BrokenAtSpace widthForChar wrapWidth before

/-- Between two indices a line may not be broken, a word that is missed apart. -/
def NoneBetween (text : List Char) (first last : Nat) : Prop :=
  ∀ ix, first < ix → ix < last → Opportunity text ix → Missed widthForChar wrapWidth text ix

end Missed

theorem wrapLine_text (widthForChar : Char → X) (wrapWidth : X) (texts : List (List Char)) :
    wrapLine widthForChar (texts.map .text) wrapWidth
      = wrapFrom widthForChar wrapWidth .start (texts.flatten.map .char) := by
  unfold wrapLine
  congr 1
  induction texts with
  | nil => rfl
  | cons text rest ih =>
    rw [map_cons, flatMap_cons, ih, flatten_cons, map_append]
    rfl

/-! ## Section 2: What the loop knows of a text -/

namespace Wrapping

variable {widthForChar : Char → X} {wrapWidth : X} {st : Wrapping X}

variable {before rest : List Char} {c : Char}

theorem brokenAt_of_overflows
    (hover : (start.after widthForChar wrapWidth before).Overflows widthForChar wrapWidth c) :
    BrokenAt widthForChar wrapWidth before c := by
  have hbreaks := breaks_append widthForChar wrapWidth start before [c]
  rw [breaks_cons, (step_breaks hover).2, breaks_nil] at hbreaks
  have hlength : ∀ text : List Char, (wrapLine widthForChar [.text text] wrapWidth).length
      = start.breaks widthForChar wrapWidth text := by
    intro text
    have htext := wrapLine_text widthForChar wrapWidth [text]
    rw [flatten_singleton] at htext
    exact congrArg List.length htext
  unfold BrokenAt
  rw [hlength, hlength, hbreaks]
  omega

variable (widthForChar wrapWidth) in
/-- What the state remembers of the text so far.  The previous character can be an older
    one: of a space that it is not, then there is no candidate; or of another character
    while a line was broken at a space. -/
structure Remembers (before : List Char) (st : Wrapping X) : Prop where
  after : st = start.after widthForChar wrapWidth before
  first : st.firstNonWhitespaceIx.isSome = true ↔ IndentEnds before
  space : st.prevC = ' ' → prevChar before = some ' ' ∨ st.lastCandidateIx = 0
  missed : prevChar before = some ' ' →
    st.prevC = ' ' ∨ BrokenAtSpace widthForChar wrapWidth before

variable (widthForChar wrapWidth) in
/-- A line may not be broken between the last candidate and the position, nor between the
    last break and the last candidate unless that is a place to break. -/
structure Watches (text : List Char) (st : Wrapping X) : Prop where
  candidate : 0 < st.lastCandidateIx → StartsChar text st.lastCandidateIx ∧
    (Opportunity text st.lastCandidateIx ∨
      NoneBetween widthForChar wrapWidth text st.lastWrapIx st.lastCandidateIx)
  rest : NoneBetween widthForChar wrapWidth text (max st.lastWrapIx st.lastCandidateIx) st.index

theorem remembers_start : Remembers widthForChar wrapWidth [] start where
  after := rfl
  first := by simp [start, IndentEnds]
  space := fun _ => Or.inr rfl
  missed := by simp [prevChar]

variable (widthForChar wrapWidth) in
theorem watches_start (text : List Char) : Watches widthForChar wrapWidth text start where
  candidate := fun h => absurd h (lt_irrefl 0)
  rest := fun _ _ hlt => absurd hlt (Nat.not_lt_zero _)

theorem Remembers.index (h : Remembers widthForChar wrapWidth before st) :
    st.index = utf8Len before := by
  rw [h.after, index_after]
  exact Nat.zero_add _

/-! ## Section 3: One character more -/

section

omit [LinearOrder X]

variable (widthForChar) in
theorem widened_of_isCandidate (h : st.isCandidate c = true) :
    (st.widened widthForChar c).lastCandidateIx = st.index := by
  have hsame : { st with index := st.index + c.utf8Size }.isCandidate c = true := h
  unfold widened noteChar noteCandidate
  simp only [hsame, if_true]
  split
  · rfl
  · rfl

variable (widthForChar) in
theorem widened_of_not_isCandidate (h : st.isCandidate c = false) :
    (st.widened widthForChar c).lastCandidateIx = st.lastCandidateIx := by
  have hsame : { st with index := st.index + c.utf8Size }.isCandidate c = false := h
  unfold widened noteChar
  simp only [hsame, Bool.false_eq_true, if_false]
  split
  · rfl
  · rfl

variable (widthForChar) in
theorem widened_isSome (st : Wrapping X) (c : Char) :
    (st.widened widthForChar c).firstNonWhitespaceIx.isSome = true
      ↔ st.firstNonWhitespaceIx.isSome = true ∨ c ≠ ' ' := by
  have hnote : ∀ (st : Wrapping X) (ix : Nat),
      (st.noteChar ix c).firstNonWhitespaceIx.isSome = true
        ↔ st.firstNonWhitespaceIx.isSome = true ∨ c ≠ ' ' := by
    intro st ix
    unfold noteChar noteCandidate
    by_cases hc : c = ' '
    · cases st.isCandidate c with
      | true => simp [hc]
      | false => simp [hc]
    · cases hfirst : st.firstNonWhitespaceIx with
      | none | some _ => cases st.isCandidate c <;> simp [hc, hfirst]
  exact hnote { st with index := st.index + c.utf8Size } st.index

end

/-- A candidate is a place to break, or the first candidate on its line. -/
theorem Remembers.of_isCandidate (hc : c ≠ '\n')
    (h : Remembers widthForChar wrapWidth before st) (hcandidate : st.isCandidate c = true) :
    MayBreak before c ∨ st.lastCandidateIx = 0 := by
  have hends : IndentEnds before := h.first.1 (isSome_of_isCandidate hcandidate)
  unfold isCandidate at hcandidate
  by_cases hword : isWordChar c = true
  · rw [if_pos hword] at hcandidate
    simp only [Bool.and_eq_true, beq_iff_eq, bne_iff_ne] at hcandidate
    obtain ⟨⟨hprev, hspace⟩, _⟩ := hcandidate
    cases h.space hprev with
    | inl hprev => exact Or.inl ⟨hspace, hc, fun _ => hprev, hends⟩
    | inr hnone => exact Or.inr hnone
  · rw [if_neg hword] at hcandidate
    simp only [Bool.and_eq_true, bne_iff_ne] at hcandidate
    exact Or.inl ⟨hcandidate.1, hc, fun h => absurd h hword, hends⟩

/-- A place to break is a candidate, or it is a word that is missed. -/
theorem Remembers.of_mayBreak
    (h : Remembers widthForChar wrapWidth before st) (hmay : MayBreak before c)
    (hcandidate : st.isCandidate c = false) :
    Missed widthForChar wrapWidth (before ++ c :: rest) (utf8Len before) := by
  obtain ⟨hspace, _, hprev, hends⟩ := hmay
  have hfirst := h.first.2 hends
  unfold isCandidate at hcandidate
  by_cases hword : isWordChar c = true
  · rw [if_pos hword, hfirst, Bool.and_true, bne_iff_ne.2 hspace, Bool.and_true] at hcandidate
    cases h.missed (hprev hword) with
    | inl hold => exact absurd hold (beq_eq_false_iff_ne.1 hcandidate)
    | inr hmissed => exact ⟨before, c, rest, rfl, rfl, hword, hmissed⟩
  · rw [if_neg hword, hfirst, bne_iff_ne.2 hspace] at hcandidate
    cases hcandidate

omit [Field X] in
theorem Placed.wrap_lt_candidate (h : st.Placed) (hpos : 0 < st.lastCandidateIx) :
    st.lastWrapIx < st.lastCandidateIx := by
  cases h.candidate with
  | inl hzero => omega
  | inr hplaced => exact hplaced.2.1

/-- The line with a character more is watched as well. -/
theorem Watches.widened (hc : c ≠ '\n')
    (h : Watches widthForChar wrapWidth (before ++ c :: rest) st)
    (hremembers : Remembers widthForChar wrapWidth before st) :
    Watches widthForChar wrapWidth (before ++ c :: rest) (st.widened widthForChar c) := by
  obtain ⟨_, _, hwrap, hindex⟩ := widened_frame widthForChar st c
  have hlen := hremembers.index
  cases hcandidate : st.isCandidate c with
  | true =>
    have hix := widened_of_isCandidate widthForChar hcandidate
    constructor
    · intro _
      rw [hix, hwrap]
      refine ⟨⟨before, c, rest, rfl, hlen.symm⟩, ?_⟩
      cases hremembers.of_isCandidate hc hcandidate with
      | inl hmay => exact Or.inl ⟨before, c, rest, rfl, hlen.symm, hmay⟩
      | inr hzero =>
        -- nothing since the last break
        right
        intro ix hfirst hlast
        apply h.rest ix _ hlast
        omega
    · intro ix hfirst hlast hopportunity
      rw [hindex, hlen] at hlast
      rcases hopportunity.last hlast with hbefore | ⟨hhere, _⟩
      · omega
      · omega
  | false =>
    have hix := widened_of_not_isCandidate widthForChar hcandidate
    constructor
    · rw [hix, hwrap]
      exact h.candidate
    · intro ix hfirst hlast hopportunity
      rw [hix, hwrap] at hfirst
      rw [hindex, hlen] at hlast
      rcases hopportunity.last hlast with hbefore | ⟨hhere, hmay⟩
      · exact h.rest ix hfirst (hlen ▸ hbefore) hopportunity
      · rw [hhere]
        exact hremembers.of_mayBreak hmay hcandidate

/-- A newline is no place to break. -/
theorem Watches.newline
    (h : Watches widthForChar wrapWidth (before ++ '\n' :: rest) st)
    (hlen : st.index = utf8Len before) :
    Watches widthForChar wrapWidth (before ++ '\n' :: rest) { st with index := st.index + 1 } where
  candidate := h.candidate
  rest := by
    intro ix hfirst hlast hopportunity
    have hlast : ix < utf8Len before + ('\n' : Char).utf8Size := by
      rw [← hlen]
      exact hlast
    rcases hopportunity.last hlast with hbefore | ⟨_, hmay⟩
    · exact h.rest ix hfirst (hlen ▸ hbefore) hopportunity
    · exact absurd rfl hmay.2.1

/-! ## Section 4: A break -/

variable (widthForChar wrapWidth) in
/-- A line that starts at `prev` is broken at `ix`. -/
def BreaksWell (text : List Char) (prev ix : Nat) : Prop :=
  prev < ix ∧ StartsChar text ix ∧
    (Opportunity text ix ∨ NoneBetween widthForChar wrapWidth text prev ix)

theorem Watches.breakLine {text : List Char} (h : Watches widthForChar wrapWidth text st)
    (hplaced : st.Placed) {ix : Nat} (itemWidth : X) (hwrap : st.lastWrapIx < ix)
    (hlt : ix < st.index) (hstarts : StartsChar text ix) :
    BreaksWell widthForChar wrapWidth text st.lastWrapIx
        (st.breakLine widthForChar ix itemWidth).lastWrapIx ∧
      Watches widthForChar wrapWidth text (st.breakLine widthForChar ix itemWidth) := by
  have hindex := (breakLine_frame widthForChar st ix itemWidth).2.2
  have hrest := h.rest
  by_cases hpos : 0 < st.lastCandidateIx
  · -- at the candidate, and the rest of the line comes after it
    obtain ⟨hline, hzero, _⟩ := breakLine_candidate widthForChar ix itemWidth hpos
    have hbefore := hplaced.wrap_lt_candidate hpos
    obtain ⟨hcandidate, hplace⟩ := h.candidate hpos
    refine ⟨?_, ?_, ?_⟩
    · rw [hline]
      exact ⟨hbefore, hcandidate, hplace⟩
    · intro hnone
      omega
    · rw [hline, hzero, hindex, Nat.max_zero]
      rw [max_eq_right (by omega)] at hrest
      exact hrest
  · -- before the item: no place to break lies on the line
    have hnone : st.lastCandidateIx = 0 := by omega
    obtain ⟨hline, hzero, _⟩ := breakLine_item widthForChar ix itemWidth hnone
    rw [hnone, Nat.max_zero] at hrest
    refine ⟨?_, ?_, ?_⟩
    · rw [hline]
      exact ⟨hwrap, hstarts, Or.inr (fun ix' hfirst hlast => hrest ix' hfirst (hlast.trans hlt))⟩
    · intro hnone
      omega
    · rw [hline, hzero, hindex, Nat.max_zero]
      exact fun ix' hfirst hlast => hrest ix' (hwrap.trans hfirst) hlast

/-! ## Section 5: A step, and a whole run -/

omit [LinearOrder X] in
variable (widthForChar) in
theorem breakLine_none (st : Wrapping X) (ix : Nat) (itemWidth : X) :
    (st.breakLine widthForChar ix itemWidth).lastCandidateIx = 0 := by
  by_cases hpos : 0 < st.lastCandidateIx
  · exact (breakLine_candidate widthForChar ix itemWidth hpos).2.1
  · exact (breakLine_item widthForChar ix itemWidth (by omega)).2.1

theorem BrokenAtSpace.newline
    (h : BrokenAtSpace widthForChar wrapWidth before) :
    BrokenAtSpace widthForChar wrapWidth (before ++ ['\n']) := by
  obtain ⟨front, newlines, rfl, hall, hbroken⟩ := h
  refine ⟨front, newlines ++ ['\n'], by simp, ?_, hbroken⟩
  intro b hb
  cases mem_append.1 hb with
  | inl hold => exact hall b hold
  | inr hnew => exact mem_singleton.1 hnew

theorem Remembers.step (c : Char) (h : Remembers widthForChar wrapWidth before st) :
    Remembers widthForChar wrapWidth (before ++ [c])
      (st.step widthForChar wrapWidth (.char c)).1 := by
  have hafter : (st.step widthForChar wrapWidth (.char c)).1
      = start.after widthForChar wrapWidth (before ++ [c]) := by
    rw [after_append, ← h.after]
    rfl
  by_cases hc : c = '\n'
  · subst hc
    refine ⟨hafter, ?_, ?_, ?_⟩
    · rw [indentEnds_append_newline]
      exact h.first
    · rw [prevChar_append_newline]
      exact h.space
    · rw [prevChar_append_newline]
      exact fun hprev => (h.missed hprev).imp_right BrokenAtSpace.newline
  by_cases hover : st.Overflows widthForChar wrapWidth c
  · -- the previous character stays what it was
    rw [(step_breaks hover).1] at hafter ⊢
    refine ⟨hafter, ?_, ?_, ?_⟩
    · rw [(breakLine_frame _ _ _ _).2.1, indentEnds_append before hc, ← h.first]
      exact widened_isSome widthForChar st c
    · intro _
      exact Or.inr (breakLine_none widthForChar _ _ _)
    · intro hprev
      rw [prevChar_append before hc, Option.some.injEq] at hprev
      subst hprev
      rw [h.after] at hover
      exact Or.inr ⟨before, [], rfl, by simp, brokenAt_of_overflows hover⟩
  · rw [step_keeps hc hover] at hafter ⊢
    refine ⟨hafter, ?_, ?_, ?_⟩
    · rw [indentEnds_append before hc, ← h.first]
      exact widened_isSome widthForChar st c
    · rw [prevChar_append before hc]
      intro hspace
      exact Or.inl (congrArg some hspace)
    · rw [prevChar_append before hc]
      intro hprev
      exact Or.inl (Option.some.inj hprev)

theorem step_boundary (h : st.Overflows widthForChar wrapWidth c) :
    (st.step widthForChar wrapWidth (.char c)).2.map Boundary.ix
      = some (st.step widthForChar wrapWidth (.char c)).1.lastWrapIx := by
  obtain ⟨hc, hover⟩ := h
  obtain ⟨hwidth, _, hwrap, _⟩ :=
    noteChar_frame { st with index := st.index + c.utf8Size } st.index c
  unfold step
  dsimp only [WrapBoundaryCandidate.lenUtf8]
  rw [if_neg hc]
  unfold advance
  rw [hwidth, if_pos]
  · rfl
  · rw [hwrap]
    exact hover

/-- A step breaks the line well, or not at all. -/
theorem Watches.step [IsStrictOrderedRing X] (hw : ∀ c, 0 ≤ widthForChar c)
    (h : Watches widthForChar wrapWidth (before ++ c :: rest) st) (hplaced : st.Placed)
    (hremembers : Remembers widthForChar wrapWidth before st) :
    Watches widthForChar wrapWidth (before ++ c :: rest)
        (st.step widthForChar wrapWidth (.char c)).1 ∧
      (((st.step widthForChar wrapWidth (.char c)).2 = none ∧
        (st.step widthForChar wrapWidth (.char c)).1.lastWrapIx = st.lastWrapIx) ∨
      ∃ boundary, (st.step widthForChar wrapWidth (.char c)).2 = some boundary ∧
        (st.step widthForChar wrapWidth (.char c)).1.lastWrapIx = boundary.ix ∧
        BreaksWell widthForChar wrapWidth (before ++ c :: rest) st.lastWrapIx boundary.ix) := by
  have hlen := hremembers.index
  by_cases hc : c = '\n'
  · subst hc
    exact ⟨h.newline hlen, Or.inl ⟨rfl, rfl⟩⟩
  obtain ⟨_, _, hwrap, hindex⟩ := widened_frame widthForChar st c
  have hwidened := h.widened hc hremembers
  by_cases hover : st.Overflows widthForChar wrapWidth c
  · have hsize := c.utf8Size_pos
    obtain ⟨hwell, hwatches⟩ := hwidened.breakLine (hplaced.widened hw c) (widthForChar c)
      (by rw [hwrap]; exact hover.2.2) (by omega) ⟨before, c, rest, rfl, hlen.symm⟩
    rw [hwrap] at hwell
    obtain ⟨boundary, hboundary, hix⟩ := Option.map_eq_some_iff.1 (step_boundary hover)
    rw [← (step_breaks hover).1] at hwell hwatches
    rw [← hix] at hwell
    exact ⟨hwatches, Or.inr ⟨boundary, hboundary, hix.symm, hwell⟩⟩
  · rw [step_keeps hc hover]
    exact ⟨⟨hwidened.candidate, hwidened.rest⟩, Or.inl ⟨rfl, hwrap⟩⟩

/-- From a state on that remembers the text before, every boundary breaks its line well. -/
theorem breaksWell_wrapFrom [IsStrictOrderedRing X] (hw : ∀ c, 0 ≤ widthForChar c)
    (before rest : List Char) (h : Watches widthForChar wrapWidth (before ++ rest) st)
    (hplaced : st.Placed) (hremembers : Remembers widthForChar wrapWidth before st) :
    List.IsChain (BreaksWell widthForChar wrapWidth (before ++ rest))
      (st.lastWrapIx :: (wrapFrom widthForChar wrapWidth st (rest.map .char)).map Boundary.ix) := by
  induction rest generalizing before st with
  | nil => exact isChain_singleton _
  | cons c rest ih =>
    obtain ⟨hwatches, hstep⟩ := h.step hw hplaced hremembers
    rw [append_cons] at hwatches hstep ⊢
    have hchain := ih (before ++ [c]) hwatches (hplaced.step wrapWidth hw c).1
      (hremembers.step c)
    rw [map_cons, wrapFrom, map_append]
    rcases hstep with ⟨hnone, hsame⟩ | ⟨boundary, hsome, hix, hwell⟩
    · rw [hsame] at hchain
      simp only [hnone, Option.toList_none, map_nil, nil_append]
      exact hchain
    · rw [hix] at hchain
      simp only [hsome, Option.toList_some, map_cons, map_nil, singleton_append]
      exact List.IsChain.cons_cons hwell hchain

end Wrapping

/-! ## Section 6: The boundaries of a line -/

theorem startsChar_of_chain {widthForChar : Char → X} {wrapWidth : X} {text : List Char}
    {prev : Nat} {boundaries : List Nat}
    (h : List.IsChain (Wrapping.BreaksWell widthForChar wrapWidth text) (prev :: boundaries)) :
    ∀ ix ∈ boundaries, StartsChar text ix := by
  induction boundaries generalizing prev with
  | nil => exact fun _ hmem => absurd hmem not_mem_nil
  | cons boundary rest ih =>
    obtain ⟨hwell, hrest⟩ := isChain_cons_cons.1 h
    intro ix hmem
    cases mem_cons.1 hmem with
    | inl hhead => exact hhead ▸ hwell.2.1
    | inr hmem => exact ih hrest ix hmem

open Wrapping in
/-- The boundaries that `wrap_line` finds in the texts of a line come one after the other,
    each at the start of a character; and each is a place to break, or there is none since
    the boundary before, words that the loop misses apart. -/
theorem wrapLine_breaksWell [IsStrictOrderedRing X] (widthForChar : Char → X)
    (hw : ∀ c, 0 ≤ widthForChar c) (wrapWidth : X) (texts : List (List Char)) :
    let text := texts.flatten
    let boundaries := (wrapLine widthForChar (texts.map .text) wrapWidth).map Boundary.ix
    boundaries.Pairwise (· < ·) ∧ (∀ ix ∈ boundaries, StartsChar text ix) ∧
      List.IsChain (fun prev ix => Opportunity text ix ∨
        ∀ between, prev < between → between < ix → Opportunity text between →
          Missed widthForChar wrapWidth text between) (0 :: boundaries) := by
  intro text boundaries
  have hchain : List.IsChain (BreaksWell widthForChar wrapWidth text) (0 :: boundaries) := by
    have hwrap := breaksWell_wrapFrom hw [] text (watches_start widthForChar wrapWidth _)
      placed_start remembers_start
    rw [nil_append, ← wrapLine_text] at hwrap
    exact hwrap
  refine ⟨?_, ?_, hchain.imp (fun prev ix hwell => hwell.2.2)⟩
  · exact (isChain_iff_pairwise.1 (hchain.imp (fun prev ix hwell => hwell.1))).tail
  · exact startsChar_of_chain hchain

/-- The widths of the tests, and a text of them. -/
theorem wrapLine_breaksWell_words :
    let text := "aa bbb cccc".toList
    let boundaries := (wrapLine (fun _ => (10 : ℚ)) [.text text] 72).map Boundary.ix
    boundaries.Pairwise (· < ·) ∧ (∀ ix ∈ boundaries, StartsChar text ix) ∧
      List.IsChain (fun prev ix => Opportunity text ix ∨
        ∀ between, prev < between → between < ix → Opportunity text between →
          Missed (fun _ => (10 : ℚ)) 72 text between) (0 :: boundaries) := by
  have hwell := wrapLine_breaksWell (fun _ => (10 : ℚ)) (fun _ => by norm_num) 72
    ["aa bbb cccc".toList]
  rwa [flatten_singleton] at hwell

/-- Within the indent of a text a word after a space is no place to break. -/
theorem wrapLine_breaks_indented_word :
    ¬ ∀ (widthForChar : Char → ℚ) (wrapWidth : ℚ) (texts : List (List Char)),
      (∀ c, 0 ≤ widthForChar c) →
      let isOpportunity := fun ix => ∃ before c rest, texts.flatten = before ++ c :: rest ∧
        utf8Len before = ix ∧ ((isWordChar c = true ∧ before.getLast? = some ' ') ∨
          (isWordChar c = false ∧ c ≠ ' '))
      List.IsChain (fun prev ix => isOpportunity ix ∨
        ∀ between, prev < between → between < ix → ¬ isOpportunity between)
        (0 :: (wrapLine widthForChar (texts.map .text) wrapWidth).map Boundary.ix) := by
  intro hall
  have hchain := hall (fun _ => 10) 72 ["     aaaaaaa".toList] (fun _ => by norm_num)
  have hboundaries : (wrapLine (fun _ => (10 : ℚ)) [.text "     aaaaaaa".toList] 72).map
      Boundary.ix = [7, 9, 11] := by
    decide +kernel
  rw [map_singleton, hboundaries, flatten_singleton, isChain_cons_cons] at hchain
  cases hchain.1 with
  | inl hopportunity =>
    -- only one character starts at 7, within the word
    obtain ⟨before, c, rest, htext, hix, hchar⟩ := hopportunity
    have hsplit : "     aaaaaaa".toList = "     aa".toList ++ 'a' :: "aaaa".toList := rfl
    have hat : "     aa".toList ++ 'a' :: "aaaa".toList = before ++ c :: rest := hsplit ▸ htext
    have hlen : utf8Len "     aa".toList = 7 := by decide
    have hword : isWordChar 'a' = true := by decide
    rcases prefix_of_startsChar hat (by rw [hix, hlen]; decide) with hlt | ⟨rfl, rfl⟩
    · omega
    · rcases hchar with ⟨_, hlast⟩ | ⟨hno, _⟩
      · exact absurd hlast (by decide)
      · exact absurd hno (by decide)
  | inr hnone =>
    -- the word starts at 5
    exact hnone 5 (by decide) (by decide)
      ⟨"     ".toList, 'a', "aaaaaa".toList, rfl, by decide, Or.inl ⟨by decide, by decide⟩⟩

end LineWrapper

end Gpui
