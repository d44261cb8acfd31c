import Gpui.Text.VisualLines

/-! # Whether visual lines fit

    A line that is closed at a glyph was measured at the glyph before, and one that is
    closed at a candidate when the loop was there.  What remains open after a break at an
    earlier candidate is not measured: it may be too wide already, and the next glyph then
    closes it. -/

namespace Gpui

open List

namespace LineLayout

variable {X : Type} [Field X] [LinearOrder X]
variable {layout : LineLayout X} {text : List Char} {wrapWidth : X}
variable {w : Wrapping X} {cur rest : List (GlyphAt X)} {glyph : GlyphAt X} {ch : Char}

/-! ### Section 1: Where the loop is -/

/-- The open line has the glyphs `cur`, and those in `rest` are to come. -/
structure Inv (layout : LineLayout X) (w : Wrapping X) (cur rest : List (GlyphAt X)) : Prop where
  rows : openLine layout.glyphs w.boundaries = cur ++ rest
  suffix : cur ++ rest <:+ layout.glyphs
  startX : ∀ first, (cur ++ rest).head? = some first → w.lastBoundaryX = first.x
  start : ∀ glyph ∈ cur ++ rest, ¬ glyph.boundary.lt w.lastBoundary = true
  sorted : w.boundaries.Pairwise (fun a b => a.lt b = true)
  last : ∀ boundary ∈ w.boundaries, ¬ w.lastBoundary.lt boundary = true
  named : ∀ boundary ∈ w.boundaries, ∃ glyph ∈ layout.glyphs, glyph.boundary = boundary
  seen : w.firstNonWhitespaceIx.isSome → cur ≠ []
  candidate : ∀ boundary, w.lastCandidateIx = some boundary →
    w.lastBoundary.lt boundary = true ∧ ∃ front glyph back, cur = front ++ glyph :: back ∧
      glyph.boundary = boundary ∧ glyph.x = w.lastCandidateX

omit [LinearOrder X] in
theorem inv_start (horigin : ∀ first, layout.glyphs.head? = some first → first.x = 0) :
    Inv layout Wrapping.start [] layout.glyphs where
  rows := rfl
  suffix := suffix_refl _
  startX := fun first hfirst => (horigin first hfirst).symm
  start := by
    intro glyph _
    rw [WrapBoundary.lt_iff]
    show ¬ (_ < 0 ∨ _ = 0 ∧ _ < 0)
    omega
  sorted := List.Pairwise.nil
  last := fun _ hmem => absurd hmem not_mem_nil
  named := fun _ hmem => absurd hmem not_mem_nil
  seen := fun h => absurd h Bool.false_ne_true
  candidate := fun _ h => nomatch h

section

omit [Field X] [LinearOrder X]

theorem Inv.pairwise (h : Inv layout w cur rest) :
    (cur ++ rest).Pairwise (fun a b => a.boundary.lt b.boundary = true) :=
  layout.glyphs_sorted.sublist h.suffix.sublist

/-- The start of the open line is before all its other glyphs. -/
theorem Inv.start_lt (h : Inv layout w cur (glyph :: rest)) (hcur : cur ≠ []) :
    w.lastBoundary.lt glyph.boundary = true := by
  cases cur with
  | nil => exact absurd rfl hcur
  | cons first front =>
    have hfirst := h.start first (by simp)
    have hlt := (pairwise_append.1 h.pairwise).2.2 first mem_cons_self glyph
      mem_cons_self
    rw [WrapBoundary.lt_iff] at hfirst hlt ⊢
    omega

/-- A glyph joins the open line. -/
theorem Inv.push (h : Inv layout w cur (glyph :: rest)) : Inv layout w (cur ++ [glyph]) rest := by
  have happend : cur ++ [glyph] ++ rest = cur ++ glyph :: rest := by simp
  refine ⟨?_, ?_, ?_, ?_, h.sorted, h.last, h.named, ?_, ?_⟩
  · rw [happend]
    exact h.rows
  · rw [happend]
    exact h.suffix
  · rw [happend]
    exact h.startX
  · rw [happend]
    exact h.start
  · intro _
    simp
  · intro boundary hboundary
    obtain ⟨hlt, front, candidate, back, rfl, hcandidate⟩ := h.candidate boundary hboundary
    exact ⟨hlt, front, candidate, back ++ [glyph], by simp, hcandidate⟩

/-- What is noted of a glyph: it may be the candidate, but not before another glyph that is
    no blank. -/
theorem noteCandidate_cases (w : Wrapping X) (glyph : GlyphAt X) (ch : Char) :
    (w.noteCandidate glyph ch).boundaries = w.boundaries ∧
    (w.noteCandidate glyph ch).lastBoundary = w.lastBoundary ∧
    (w.noteCandidate glyph ch).lastBoundaryX = w.lastBoundaryX ∧
    ((w.noteCandidate glyph ch).lastCandidateIx = w.lastCandidateIx ∧
        (w.noteCandidate glyph ch).lastCandidateX = w.lastCandidateX ∨
      w.firstNonWhitespaceIx.isSome ∧
        (w.noteCandidate glyph ch).lastCandidateIx = some glyph.boundary ∧
        (w.noteCandidate glyph ch).lastCandidateX = glyph.x) := by
  unfold Wrapping.noteCandidate
  dsimp only
  by_cases hcandidate : (if LineWrapper.isWordChar ch then
      w.prevCh == ' ' && ch != ' ' && w.firstNonWhitespaceIx.isSome
    else ch != ' ' && w.firstNonWhitespaceIx.isSome) = true
  · have hsome : w.firstNonWhitespaceIx.isSome = true := by
      split at hcandidate
      · exact (Bool.and_eq_true_iff.1 hcandidate).2
      · exact (Bool.and_eq_true_iff.1 hcandidate).2
    rw [if_pos hcandidate]
    split
    · exact ⟨rfl, rfl, rfl, .inr ⟨hsome, rfl, rfl⟩⟩
    · exact ⟨rfl, rfl, rfl, .inr ⟨hsome, rfl, rfl⟩⟩
  · rw [if_neg hcandidate]
    split
    · exact ⟨rfl, rfl, rfl, .inl ⟨rfl, rfl⟩⟩
    · exact ⟨rfl, rfl, rfl, .inl ⟨rfl, rfl⟩⟩

theorem Inv.noteCandidate (h : Inv layout w cur (glyph :: rest)) (ch : Char) :
    Inv layout (w.noteCandidate glyph ch) (cur ++ [glyph]) rest := by
  obtain ⟨hboundaries, hlast, hlastX, hcase⟩ := noteCandidate_cases w glyph ch
  have hpush := h.push
  refine ⟨?_, hpush.suffix, ?_, ?_, ?_, ?_, ?_, ?_, ?_⟩
  · rw [hboundaries]
    exact hpush.rows
  · rw [hlastX]
    exact hpush.startX
  · rw [hlast]
    exact hpush.start
  · rw [hboundaries]
    exact hpush.sorted
  · rw [hboundaries, hlast]
    exact hpush.last
  · rw [hboundaries]
    exact hpush.named
  · intro _
    simp
  · intro boundary hboundary
    rw [hlast]
    match hcase with
    | .inl ⟨hix, hx⟩ =>
      rw [hix] at hboundary
      rw [hx]
      exact hpush.candidate boundary hboundary
    | .inr ⟨hsome, hix, hx⟩ =>
      rw [hix] at hboundary
      cases hboundary
      exact ⟨h.start_lt (h.seen hsome), cur, glyph, [], rfl, rfl, hx.symm⟩

/-- The previous character has no part in it. -/
theorem Inv.prevCh (h : Inv layout w cur rest) (ch : Char) :
    Inv layout { w with prevCh := ch } cur rest :=
  ⟨h.rows, h.suffix, h.startX, h.start, h.sorted, h.last, h.named, h.seen, h.candidate⟩

/-- A break cuts the open line, at the candidate or before the last glyph. -/
theorem Inv.breakLine (h : Inv layout w (cur ++ [glyph]) rest)
    (hlt : w.lastBoundary.lt glyph.boundary = true) :
    ∃ front first back, cur ++ [glyph] = front ++ first :: back ∧
      (w.breakLine glyph).boundaries = w.boundaries ++ [first.boundary] ∧
      (w.breakLine glyph).lastCandidateIx = none ∧
      (w.lastCandidateIx = some first.boundary ∧ first.x = w.lastCandidateX ∨
        w.lastCandidateIx = none ∧ front = cur ∧ first = glyph ∧ back = []) ∧
      Inv layout (w.breakLine glyph) (first :: back) rest := by
  -- the boundary that is emitted
  obtain ⟨front, first, back, hsplit, hbreak, hcase, hfirst⟩ :
      ∃ front first back, cur ++ [glyph] = front ++ first :: back ∧
        w.breakLine glyph = { w with
          boundaries := w.boundaries ++ [first.boundary]
          lastCandidateIx := none
          lastBoundary := first.boundary
          lastBoundaryX := first.x } ∧
        (w.lastCandidateIx = some first.boundary ∧ first.x = w.lastCandidateX ∨
          w.lastCandidateIx = none ∧ front = cur ∧ first = glyph ∧ back = []) ∧
        w.lastBoundary.lt first.boundary = true := by
    cases hix : w.lastCandidateIx with
    | none =>
      refine ⟨cur, glyph, [], rfl, ?_, .inr ⟨rfl, rfl, rfl, rfl⟩, hlt⟩
      simp only [Wrapping.breakLine, hix]
    | some boundary =>
      obtain ⟨hltBoundary, front, first, back, hsplit, rfl, hx⟩ := h.candidate boundary hix
      refine ⟨front, first, back, hsplit, ?_, .inl ⟨rfl, hx⟩, hltBoundary⟩
      simp only [Wrapping.breakLine, hix, hx]
  refine ⟨front, first, back, hsplit, by rw [hbreak], by rw [hbreak], hcase, ?_⟩
  rw [hbreak]
  have hall : cur ++ [glyph] ++ rest = front ++ first :: (back ++ rest) := by
    rw [hsplit]
    simp
  have hsorted := h.pairwise
  rw [hall] at hsorted
  have hmem : first ∈ layout.glyphs := by
    refine h.suffix.subset ?_
    rw [hall]
    simp
  refine ⟨?_, ?_, ?_, ?_, ?_, ?_, ?_, fun _ => cons_ne_nil _ _, fun _ hnone => nomatch hnone⟩
  · show openLine layout.glyphs (w.boundaries ++ [first.boundary]) = _
    rw [openLine_append, h.rows, hall]
    exact (cut_at hsorted).2
  · refine List.IsSuffix.trans ?_ h.suffix
    rw [hall]
    exact suffix_append _ _
  · intro other hother
    cases hother
    rfl
  · intro other hother
    obtain rfl | hother := mem_cons.1 hother
    · exact WrapBoundary.lt_irrefl _
    · have := rel_of_pairwise_cons (pairwise_append.1 hsorted).2.1 hother
      exact WrapBoundary.lt_asymm this
  · refine pairwise_append.2 ⟨h.sorted, pairwise_singleton _ _, ?_⟩
    intro boundary hboundary other hother
    rw [mem_singleton.1 hother]
    have hle := h.last boundary hboundary
    rw [WrapBoundary.lt_iff] at hle hfirst ⊢
    omega
  · intro boundary hboundary
    show ¬ first.boundary.lt boundary = true
    obtain hboundary | hboundary := mem_append.1 hboundary
    · have hle := h.last boundary hboundary
      rw [WrapBoundary.lt_iff] at hle hfirst ⊢
      omega
    · rw [mem_singleton.1 hboundary]
      exact WrapBoundary.lt_irrefl _
  · intro boundary hboundary
    obtain hboundary | hboundary := mem_append.1 hboundary
    · exact h.named boundary hboundary
    · exact ⟨first, hmem, (mem_singleton.1 hboundary).symm⟩

end

/-! ### Section 2: Lines that fit -/

/-- A line of more than one glyph and no newline is not wider than the wrap width. -/
def Fits (text : List Char) (wrapWidth : X) (line : VisualLine X) : Prop :=
  1 < line.glyphs.length → (∀ glyph ∈ line.glyphs, ¬ IsNewline text glyph) →
    line.width ≤ wrapWidth

/-- A glyph ends beyond the width measured from an earlier candidate.  No newline glyph stands
    from the candidate on to the glyph after this one, which ends beyond the width, too. -/
def Overshoots (layout : LineLayout X) (text : List Char) (wrapWidth : X) (w : Wrapping X)
    (glyph : GlyphAt X) (rest : List (GlyphAt X)) : Prop :=
  ∃ ch candidate, charAt text glyph.index = .ok ch ∧ ch ≠ '\n' ∧
    (w.noteCandidate glyph ch).lastCandidateIx = some candidate ∧
    candidate.lt glyph.boundary = true ∧
    wrapWidth < nextX layout.width rest - (w.noteCandidate glyph ch).lastCandidateX ∧
    (∀ other ∈ layout.glyphs, ¬ other.boundary.lt candidate = true →
      ¬ glyph.boundary.lt other.boundary = true → ¬ IsNewline text other) ∧
    ∀ next after, rest = next :: after → ¬ IsNewline text next ∧
      wrapWidth < nextX layout.width after - (w.noteCandidate glyph ch).lastCandidateX

/-- The loop meets no such glyph. -/
def NoOvershoot (layout : LineLayout X) (text : List Char) (wrapWidth : X) : Prop :=
  ∀ w glyph rest, Visits layout text wrapWidth w (glyph :: rest) →
    ¬ Overshoots layout text wrapWidth w glyph rest

/-- The closed lines fit, and so do the open one, up to the next glyph, and the one that would
    be closed at the candidate.  Where the open one does not, the next glyph is a newline, or
    the last glyph, with which it fits. -/
structure Fitting (layout : LineLayout X) (text : List Char) (wrapWidth : X) (w : Wrapping X)
    (cur rest : List (GlyphAt X)) : Prop where
  closed : ∀ line ∈ closedLines layout.width layout.glyphs w.boundaries, Fits text wrapWidth line
  pending : Fits text wrapWidth ⟨cur, nextX layout.width rest⟩ ∨
    ∃ next after, rest = next :: after ∧
      (IsNewline text next ∨ nextX layout.width after - w.lastBoundaryX ≤ wrapWidth)
  candidate : ∀ boundary, w.lastCandidateIx = some boundary → rest ≠ [] →
    Fits text wrapWidth ⟨lineBefore boundary cur, w.lastCandidateX⟩

variable {endX : X} {boundary : WrapBoundary} {boundaries : List WrapBoundary}

theorem fits_of_newline (hmem : glyph ∈ cur) (hnewline : IsNewline text glyph) :
    Fits text wrapWidth ⟨cur, endX⟩ :=
  fun _ hnone => absurd hnewline (hnone glyph hmem)

theorem fits_singleton (glyph : GlyphAt X) (endX : X) : Fits text wrapWidth ⟨[glyph], endX⟩ :=
  fun hlen => absurd hlen (Nat.lt_irrefl 1)

/-- The open line is measured from the last boundary. -/
theorem Inv.fits (h : Inv layout w cur rest) (hle : endX - w.lastBoundaryX ≤ wrapWidth) :
    Fits text wrapWidth ⟨cur, endX⟩ := by
  intro hlen _
  cases cur with
  | nil => exact absurd hlen (Nat.not_lt_zero _)
  | cons first front =>
    have hstart := h.startX first rfl
    rw [hstart] at hle
    exact hle

omit [Field X] [LinearOrder X] in
/-- The line that would be closed at the candidate. -/
theorem Inv.lineBefore_push (h : Inv layout w cur (glyph :: rest))
    (hboundary : w.lastCandidateIx = some boundary) :
    lineBefore boundary (cur ++ [glyph]) = lineBefore boundary cur := by
  obtain ⟨_, front, first, back, rfl, rfl, _⟩ := h.candidate boundary hboundary
  have hsorted := h.pairwise
  have hcur := (pairwise_append.1 hsorted).1
  have hpush := (pairwise_append.1 h.push.pairwise).1
  rw [append_assoc, cons_append] at hpush ⊢
  rw [(cut_at hcur).1, (cut_at hpush).1]

/-- A newline joins the open line. -/
theorem Fitting.newline (hinv : Inv layout w cur (glyph :: rest))
    (h : Fitting layout text wrapWidth w cur (glyph :: rest)) (hnewline : IsNewline text glyph) :
    Fitting layout text wrapWidth w (cur ++ [glyph]) rest where
  closed := h.closed
  pending := .inl (fits_of_newline (mem_append_right _ (mem_singleton.2 rfl)) hnewline)
  candidate := by
    intro boundary hboundary _
    rw [hinv.lineBefore_push hboundary]
    exact h.candidate boundary hboundary (cons_ne_nil _ _)

/-- The open line fits up to a glyph that is no newline, if the loop breaks it there or goes
    on behind it. -/
theorem Fitting.fits_glyph [IsStrictOrderedRing X]
    (hmono : layout.glyphs.Pairwise (fun a b => a.x ≤ b.x))
    (hinv : Inv layout w cur (glyph :: rest))
    (h : Fitting layout text wrapWidth w cur (glyph :: rest)) (hnewline : ¬ IsNewline text glyph)
    (hgoes : wrapWidth < nextX layout.width rest - w.lastBoundaryX ∨ rest ≠ []) :
    Fits text wrapWidth ⟨cur, glyph.x⟩ := by
  match h.pending with
  | .inl hfits => exact hfits
  | .inr ⟨next, after, heq, hcase⟩ =>
    cases heq
    match hcase with
    | .inl hnew => exact absurd hnew hnewline
    | .inr hle =>
      match hgoes with
      | .inl hover => exact absurd hle (not_le.2 hover)
      | .inr hrest =>
        -- the end of the glyph is the start of the next one
        cases rest with
        | nil => exact absurd rfl hrest
        | cons other after =>
          have hpairs := hmono.sublist hinv.suffix.sublist
          have hx : glyph.x ≤ other.x :=
            rel_of_pairwise_cons (pairwise_append.1 hpairs).2.1 mem_cons_self
          refine hinv.fits ?_
          have hle : other.x - w.lastBoundaryX ≤ wrapWidth := hle
          linarith

theorem Fitting.candidate_glyph [IsStrictOrderedRing X]
    (hmono : layout.glyphs.Pairwise (fun a b => a.x ≤ b.x))
    (hinv : Inv layout w cur (glyph :: rest))
    (h : Fitting layout text wrapWidth w cur (glyph :: rest)) (hnewline : ¬ IsNewline text glyph)
    (hgoes : wrapWidth < nextX layout.width rest - w.lastBoundaryX ∨ rest ≠ [])
    (hboundary : (w.noteCandidate glyph ch).lastCandidateIx = some boundary) :
    Fits text wrapWidth
      ⟨lineBefore boundary (cur ++ [glyph]), (w.noteCandidate glyph ch).lastCandidateX⟩ := by
  obtain ⟨_, _, _, hcase⟩ := noteCandidate_cases w glyph ch
  match hcase with
  | .inl ⟨hix, hx⟩ =>
    rw [hix] at hboundary
    rw [hx, hinv.lineBefore_push hboundary]
    exact h.candidate boundary hboundary (cons_ne_nil _ _)
  | .inr ⟨_, hix, hx⟩ =>
    rw [hix] at hboundary
    cases hboundary
    have hsorted := (pairwise_append.1 hinv.push.pairwise).1
    rw [hx, (cut_at hsorted).1]
    exact h.fits_glyph hmono hinv hnewline hgoes

/-- What stays open behind a break fits, unless the glyph overshoots. -/
theorem Inv.pending_of_break [IsStrictOrderedRing X] {w' : Wrapping X}
    {front back : List (GlyphAt X)} {first : GlyphAt X} (hinv : Inv layout w (cur ++ [glyph]) rest)
    (hsplit : cur ++ [glyph] = front ++ first :: back) (hinv' : Inv layout w' (first :: back) rest)
    (hcase : w.lastCandidateIx = some first.boundary ∧ first.x = w.lastCandidateX ∨ back = [])
    (hno : ∀ candidate, w.lastCandidateIx = some candidate → candidate.lt glyph.boundary = true →
      wrapWidth < nextX layout.width rest - w.lastCandidateX →
      (∀ other ∈ layout.glyphs, ¬ other.boundary.lt candidate = true →
        ¬ glyph.boundary.lt other.boundary = true → ¬ IsNewline text other) →
      ∃ next after, rest = next :: after ∧ (IsNewline text next ∨
        nextX layout.width after - w.lastCandidateX ≤ wrapWidth)) :
    Fits text wrapWidth ⟨first :: back, nextX layout.width rest⟩ ∨
      ∃ next after, rest = next :: after ∧
        (IsNewline text next ∨ nextX layout.width after - w'.lastBoundaryX ≤ wrapWidth) := by
  have hstart : w'.lastBoundaryX = first.x := hinv'.startX first rfl
  match hcase with
  | .inr hback =>
    rw [hback]
    exact .inl (fits_singleton first _)
  | .inl ⟨hix, hx⟩ =>
    by_cases hfits : Fits text wrapWidth ⟨first :: back, nextX layout.width rest⟩
    · exact .inl hfits
    · -- otherwise the candidate is an earlier glyph from which on the line is too wide
      right
      unfold Fits at hfits
      push Not at hfits
      obtain ⟨hlen, hnone, hwide⟩ := hfits
      have hall := hinv.pairwise
      have hsorted := (pairwise_append.1 hall).1
      rw [hsplit] at hsorted
      have hlast : glyph ∈ back := by
        have hend : (front ++ first :: back).getLast? = some glyph := by
          rw [← hsplit]
          simp
        cases hback : back with
        | nil =>
          rw [hback] at hlen
          exact absurd hlen (Nat.lt_irrefl 1)
        | cons second more =>
          rw [hback, getLast?_append_cons, getLast?_cons_cons] at hend
          exact mem_of_getLast? hend
      have hlt : first.boundary.lt glyph.boundary = true :=
        rel_of_pairwise_cons (pairwise_append.1 hsorted).2.1 hlast
      rw [hstart, hx]
      refine hno first.boundary hix hlt ?_ ?_
      · rw [← hx]
        exact hwide
      · intro other hother hge hle
        refine hnone other ?_
        -- the glyphs of the layout by where they stand
        obtain ⟨before, hbefore⟩ := hinv.suffix
        have hglyphs := layout.glyphs_sorted
        rw [← hbefore] at hother hglyphs
        have hcur : glyph ∈ cur ++ [glyph] := mem_append_right _ (mem_singleton.2 rfl)
        obtain hother | hother := mem_append.1 hother
        · refine absurd ((pairwise_append.1 hglyphs).2.2 other hother first ?_) hge
          rw [hsplit]
          simp
        · obtain hother | hother := mem_append.1 hother
          · rw [hsplit] at hother
            obtain hother | hother := mem_append.1 hother
            · exact absurd ((pairwise_append.1 hsorted).2.2 other hother first
                mem_cons_self) hge
            · exact hother
          · exact absurd ((pairwise_append.1 hall).2.2 glyph hcur other hother) hle

/-- The loop goes to the next glyph. -/
theorem Fitting.after [IsStrictOrderedRing X]
    (hmono : layout.glyphs.Pairwise (fun a b => a.x ≤ b.x))
    (hinv : Inv layout w cur (glyph :: rest))
    (h : Fitting layout text wrapWidth w cur (glyph :: rest))
    (hch : charAt text glyph.index = .ok ch) (hne : ch ≠ '\n')
    (hno : ¬ Overshoots layout text wrapWidth w glyph rest) :
    ∃ cur', Inv layout (w.after wrapWidth (nextX layout.width rest) glyph ch) cur' rest ∧
      Fitting layout text wrapWidth (w.after wrapWidth (nextX layout.width rest) glyph ch)
        cur' rest := by
  have hnewline : ¬ IsNewline text glyph := by
    intro hnew
    unfold IsNewline at hnew
    rw [hch] at hnew
    exact hne (Except.ok.inj hnew)
  have hnote := hinv.noteCandidate ch
  obtain ⟨hboundaries, hlastBoundary, hlastX, _⟩ := noteCandidate_cases w glyph ch
  unfold Wrapping.after
  dsimp only
  split
  · rename_i hbreak
    obtain ⟨hover, hlt⟩ := Bool.and_eq_true_iff.1 hbreak
    have hover := of_decide_eq_true hover
    rw [hlastX] at hover
    obtain ⟨front, first, back, hsplit, hemitted, hnone, hcase, hinv'⟩ := hnote.breakLine hlt
    refine ⟨first :: back, hinv'.prevCh ch, ?_, ?_, fun boundary hboundary => ?_⟩
    · -- the line that is closed now
      intro line hline
      rw [hemitted, hboundaries, closedLines_append, hinv.rows] at hline
      obtain hline | hline := mem_append.1 hline
      · exact h.closed line hline
      · have hall : cur ++ glyph :: rest = front ++ first :: (back ++ rest) := by
          have := congrArg (· ++ rest) hsplit
          simpa using this
        have hsorted := hinv.pairwise
        rw [hall] at hline hsorted
        obtain ⟨hfront, hrest⟩ := cut_at hsorted
        rw [closedLines, closedLines, mem_singleton, hfront, hrest] at hline
        rw [hline]
        obtain ⟨hix, hx⟩ | ⟨_, hfrontEq, hfirst, _⟩ := hcase
        · have hfits := h.candidate_glyph hmono hinv hnewline (.inl hover) hix
          have hcur := (pairwise_append.1 hnote.pairwise).1
          rw [hsplit] at hfits hcur
          rw [(cut_at hcur).1, ← hx] at hfits
          exact hfits
        · rw [hfrontEq, hfirst]
          exact h.fits_glyph hmono hinv hnewline (.inl hover)
    · refine hnote.pending_of_break hsplit (hinv'.prevCh ch) ?_ ?_
      · exact hcase.imp_right (fun hlast => hlast.2.2.2)
      · intro candidate hix hltCandidate hwide hclear
        by_contra hfollow
        push Not at hfollow
        exact hno ⟨ch, candidate, hch, hne, hix, hltCandidate, hwide, hclear, hfollow⟩
    · rw [hnone] at hboundary
      cases hboundary
  · rename_i hbreak
    refine ⟨cur ++ [glyph], hnote.prevCh ch, ?_, .inl ?_, ?_⟩
    · show ∀ line ∈ closedLines layout.width layout.glyphs
        (w.noteCandidate glyph ch).boundaries, _
      rw [hboundaries]
      exact h.closed
    · by_cases hcur : cur = []
      · rw [hcur]
        exact fits_singleton glyph _
      · -- the line is not too wide yet
        have hlt := hinv.start_lt hcur
        rw [hlastBoundary, hlt, Bool.and_true, decide_eq_true_eq] at hbreak
        exact hnote.fits (not_lt.1 hbreak)
    · intro boundary hboundary hrest
      exact h.candidate_glyph hmono hinv hnewline (.inr hrest) hboundary

theorem fitting_start (glyphs : List (GlyphAt X)) :
    Fitting layout text wrapWidth Wrapping.start [] glyphs where
  closed := fun _ hmem => absurd hmem not_mem_nil
  pending := .inl (fun hlen => absurd hlen (Nat.not_lt_zero _))
  candidate := fun _ h => nomatch h

/-- **Run lemma.** -/
theorem Visits.fitting [IsStrictOrderedRing X]
    (horigin : ∀ first, layout.glyphs.head? = some first → first.x = 0)
    (hmono : layout.glyphs.Pairwise (fun a b => a.x ≤ b.x))
    (hno : NoOvershoot layout text wrapWidth) (h : Visits layout text wrapWidth w rest) :
    ∃ cur, Inv layout w cur rest ∧ Fitting layout text wrapWidth w cur rest := by
  induction h with
  | start => exact ⟨[], inv_start horigin, fitting_start _⟩
  | newline _ hnewline ih =>
    obtain ⟨cur, hinv, hfitting⟩ := ih
    exact ⟨_, hinv.push, hfitting.newline hinv hnewline⟩
  | glyph hvisits hch hne ih =>
    obtain ⟨cur, hinv, hfitting⟩ := ih
    exact hfitting.after hmono hinv hch hne (hno _ _ _ hvisits)

/-! ### Section 3: Glyphs that overshoot -/

/-- Every state of the loop has an open line. -/
theorem Visits.inv (horigin : ∀ first, layout.glyphs.head? = some first → first.x = 0)
    (h : Visits layout text wrapWidth w rest) : ∃ cur, Inv layout w cur rest := by
  induction h with
  | start => exact ⟨[], inv_start horigin⟩
  | newline _ _ ih =>
    obtain ⟨cur, hinv⟩ := ih
    exact ⟨_, hinv.push⟩
  | @glyph w glyph rest ch _ _ _ ih =>
    obtain ⟨cur, hinv⟩ := ih
    have hnote := hinv.noteCandidate ch
    unfold Wrapping.after
    dsimp only
    split
    · rename_i hbreak
      obtain ⟨_, first, back, _, _, _, _, hinv'⟩ :=
        hnote.breakLine (Bool.and_eq_true_iff.1 hbreak).2
      exact ⟨first :: back, hinv'.prevCh ch⟩
    · exact ⟨cur ++ [glyph], hnote.prevCh ch⟩

/-- Behind a glyph that overshoots the open line is too wide. -/
theorem Overshoots.open_line [IsStrictOrderedRing X]
    (hmono : layout.glyphs.Pairwise (fun a b => a.x ≤ b.x))
    (hinv : Inv layout w cur (glyph :: rest)) (h : Overshoots layout text wrapWidth w glyph rest) :
    ∃ ch first back, charAt text glyph.index = .ok ch ∧ ch ≠ '\n' ∧
      (let w' := w.after wrapWidth (nextX layout.width rest) glyph ch
      Inv layout w' (first :: back) rest ∧ w'.lastCandidateIx = none ∧
      ¬ Fits text wrapWidth ⟨first :: back, nextX layout.width rest⟩ ∧
      ∀ next after, rest = next :: after → ¬ IsNewline text next ∧
        wrapWidth < nextX layout.width after - w'.lastBoundaryX) := by
  obtain ⟨ch, candidate, hch, hne, hix, hlt, hwide, hclear, hfollow⟩ := h
  have hnote := hinv.noteCandidate ch
  -- the glyph ends beyond the width from the last boundary, too
  obtain ⟨hltCandidate, _⟩ := hnote.candidate candidate hix
  have hltGlyph := WrapBoundary.lt_trans hltCandidate hlt
  obtain ⟨front, first, back, hsplit, _, hnone, hcase, hinv'⟩ := hnote.breakLine hltGlyph
  obtain ⟨hfirst, hx⟩ : (w.noteCandidate glyph ch).lastCandidateIx = some first.boundary ∧
      first.x = (w.noteCandidate glyph ch).lastCandidateX := by
    match hcase with
    | .inl hfound => exact hfound
    | .inr ⟨hempty, _⟩ =>
      rw [hix] at hempty
      cases hempty
  rw [hix] at hfirst
  cases hfirst
  have hsorted := (pairwise_append.1 hnote.pairwise).1
  rw [hsplit] at hsorted
  have hstart : (w.noteCandidate glyph ch).lastBoundaryX ≤ first.x := by
    have hpairs := (pairwise_append.1 (hmono.sublist hnote.suffix.sublist)).1
    rw [hsplit] at hpairs
    cases front with
    | nil =>
      refine (hnote.startX first ?_).le
      rw [hsplit]
      rfl
    | cons other front =>
      rw [hnote.startX other (by rw [hsplit]; rfl)]
      exact (pairwise_append.1 hpairs).2.2 other mem_cons_self first mem_cons_self
  have hbreak : (decide (wrapWidth < nextX layout.width rest -
      (w.noteCandidate glyph ch).lastBoundaryX) &&
      (w.noteCandidate glyph ch).lastBoundary.lt glyph.boundary) = true := by
    rw [hltGlyph, Bool.and_true, decide_eq_true_eq]
    linarith
  have hafter : w.after wrapWidth (nextX layout.width rest) glyph ch
      = { (w.noteCandidate glyph ch).breakLine glyph with prevCh := ch } := by
    unfold Wrapping.after
    rw [if_pos hbreak]
  refine ⟨ch, first, back, hch, hne, ?_⟩
  rw [hafter]
  refine ⟨hinv'.prevCh ch, hnone, ?_, ?_⟩
  · -- the candidate and the glyph are two glyphs of the line
    have hlast : (front ++ first :: back).getLast? = some glyph := by
      rw [← hsplit]
      simp
    rw [getLast?_append_cons] at hlast
    have hmem : glyph ∈ first :: back := mem_of_getLast? hlast
    intro hfits
    refine absurd (hfits ?_ ?_) (not_le.2 ?_)
    · cases back with
      | nil =>
        rw [mem_singleton.1 hmem] at hlt
        exact absurd hlt (WrapBoundary.lt_irrefl _)
      | cons second more => simp
    · intro other hother
      have hline := (pairwise_append.1 hsorted).2.1
      have hglyphs : other ∈ layout.glyphs := by
        refine hnote.suffix.subset (mem_append_left _ ?_)
        rw [hsplit]
        exact mem_append_right _ hother
      refine hclear other hglyphs ?_ ?_
      · obtain rfl | hother := mem_cons.1 hother
        · exact WrapBoundary.lt_irrefl _
        · exact WrapBoundary.lt_asymm (rel_of_pairwise_cons hline hother)
      · obtain ⟨lead, hlead⟩ := getLast?_eq_some_iff.1 hlast
        rw [hlead] at hline hother
        obtain hother | hother := mem_append.1 hother
        · exact WrapBoundary.lt_asymm
            ((pairwise_append.1 hline).2.2 other hother glyph (mem_singleton.2 rfl))
        · rw [mem_singleton.1 hother]
          exact WrapBoundary.lt_irrefl _
    · show wrapWidth < nextX layout.width rest - first.x
      rw [hx]
      exact hwide
  · intro next after heq
    have hlastX' : ((w.noteCandidate glyph ch).breakLine glyph).lastBoundaryX = first.x :=
      hinv'.startX first rfl
    show _ ∧ wrapWidth < _ - ((w.noteCandidate glyph ch).breakLine glyph).lastBoundaryX
    rw [hlastX', hx]
    exact hfollow next after heq

/-- The next glyph closes the line at itself. -/
theorem Inv.closes (hinv : Inv layout w cur (glyph :: rest)) (hcur : cur ≠ [])
    (hnone : w.lastCandidateIx = none)
    (hover : wrapWidth < nextX layout.width rest - w.lastBoundaryX) (ch : Char) :
    (w.after wrapWidth (nextX layout.width rest) glyph ch).boundaries
      = w.boundaries ++ [glyph.boundary] := by
  have hnote := hinv.noteCandidate ch
  obtain ⟨hboundaries, hlastBoundary, hlastX, hnoted⟩ := noteCandidate_cases w glyph ch
  have hlt : (w.noteCandidate glyph ch).lastBoundary.lt glyph.boundary = true := by
    rw [hlastBoundary]
    exact hinv.start_lt hcur
  obtain ⟨front, first, back, _, hemitted, _, hcase, _⟩ := hnote.breakLine hlt
  have hfirst : first.boundary = glyph.boundary := by
    match hcase with
    | .inr ⟨_, _, heq, _⟩ => rw [heq]
    | .inl ⟨hix, _⟩ =>
      match hnoted with
      | .inl ⟨hsame, _⟩ =>
        rw [hsame, hnone] at hix
        cases hix
      | .inr ⟨_, hself, _⟩ =>
        rw [hself] at hix
        exact (Option.some.inj hix).symm
  unfold Wrapping.after
  dsimp only
  rw [hlastX, hlt, Bool.and_true, if_pos (decide_eq_true hover)]
  show ((w.noteCandidate glyph ch).breakLine glyph).boundaries = _
  rw [hemitted, hboundaries, hfirst]

/-- The lines of a state of the loop that are closed stay. -/
theorem Visits.closed_mem (hvalid : IndexValid text layout.glyphs)
    (h : Visits layout text wrapWidth w rest)
    (hresult : layout.computeWrapBoundaries text wrapWidth none = .ok boundaries)
    {line : VisualLine X} (hline : line ∈ closedLines layout.width layout.glyphs w.boundaries) :
    line ∈ layout.visualLines boundaries := by
  obtain ⟨full, hfull, hprefix, _⟩ := @wrapGlyphs_limit _ _ _ text layout.width wrapWidth rest
    (fun g hg => hvalid g (h.suffix.subset hg)) w
  rw [h.result hvalid, hfull] at hresult
  cases hresult
  obtain ⟨more, rfl⟩ := hprefix
  rw [visualLines, closedLines_append]
  exact mem_append_left _ (mem_append_left _ hline)

/-- A glyph that overshoots is in a line that does not fit. -/
theorem Overshoots.not_fits [IsStrictOrderedRing X] (hvalid : IndexValid text layout.glyphs)
    (horigin : ∀ first, layout.glyphs.head? = some first → first.x = 0)
    (hmono : layout.glyphs.Pairwise (fun a b => a.x ≤ b.x))
    (hvisits : Visits layout text wrapWidth w (glyph :: rest))
    (h : Overshoots layout text wrapWidth w glyph rest)
    (hresult : layout.computeWrapBoundaries text wrapWidth none = .ok boundaries) :
    ∃ line ∈ layout.visualLines boundaries, ¬ Fits text wrapWidth line := by
  obtain ⟨cur, hinv⟩ := hvisits.inv horigin
  obtain ⟨ch, first, back, hch, hne, hinv', hnone, hwide, hfollow⟩ := h.open_line hmono hinv
  have hvisits' := hvisits.glyph hch hne
  refine ⟨_, ?_, hwide⟩
  cases rest with
  | nil =>
    -- it is the last line
    rw [hvisits'.result hvalid, wrapGlyphs] at hresult
    cases hresult
    rw [visualLines, hinv'.rows, append_nil]
    exact mem_append_right _ (mem_singleton.2 rfl)
  | cons next after =>
    obtain ⟨hnewline, hover⟩ := hfollow next after rfl
    obtain ⟨nextCh, hnextCh⟩ := hvalid next (hvisits'.suffix.subset mem_cons_self)
    have hnextNe : nextCh ≠ '\n' := by
      intro heq
      rw [heq] at hnextCh
      exact hnewline hnextCh
    refine (hvisits'.glyph hnextCh hnextNe).closed_mem hvalid hresult ?_
    rw [hinv'.closes (cons_ne_nil _ _) hnone hover, closedLines_append, hinv'.rows]
    refine mem_append_right _ ?_
    obtain ⟨hfront, hrest⟩ := cut_at hinv'.pairwise
    rw [closedLines, closedLines, hfront, hrest]
    exact mem_singleton.2 rfl

/-! ### Section 4: The result -/

/-- The boundaries are increasing and those of glyphs; and the visual lines fit exactly if no
    glyph overshoots behind an earlier candidate. -/
theorem visualLines_fit_iff [IsStrictOrderedRing X] (hvalid : IndexValid text layout.glyphs)
    (horigin : ∀ first, layout.glyphs.head? = some first → first.x = 0)
    (hmono : layout.glyphs.Pairwise (fun a b => a.x ≤ b.x)) (wrapWidth : X) :
    ∃ boundaries, layout.computeWrapBoundaries text wrapWidth none = .ok boundaries ∧
      boundaries.Pairwise (fun a b => a.lt b = true) ∧
      (∀ boundary ∈ boundaries, ∃ glyph ∈ layout.glyphs, glyph.boundary = boundary) ∧
      ((∀ line ∈ layout.visualLines boundaries, Fits text wrapWidth line) ↔
        NoOvershoot layout text wrapWidth) := by
  have hstart : Visits layout text wrapWidth Wrapping.start layout.glyphs := .start
  obtain ⟨w, hends⟩ := hstart.ends hvalid
  obtain ⟨cur, hinv⟩ := hends.inv horigin
  have hresult : layout.computeWrapBoundaries text wrapWidth none = .ok w.boundaries := by
    rw [hends.result hvalid, wrapGlyphs]
  refine ⟨w.boundaries, hresult, hinv.sorted, hinv.named, ?_⟩
  constructor
  · intro hall w' glyph rest hvisits hovershoots
    obtain ⟨line, hline, hnot⟩ := hovershoots.not_fits hvalid horigin hmono hvisits hresult
    exact hnot (hall line hline)
  · intro hno line hline
    obtain ⟨cur', hinv', hfitting⟩ := hends.fitting horigin hmono hno
    obtain hline | hline := mem_append.1 hline
    · exact hfitting.closed line hline
    · rw [mem_singleton.1 hline, hinv'.rows, append_nil]
      obtain hfits | ⟨_, _, hnil, _⟩ := hfitting.pending
      · exact hfits
      · cases hnil

/-- The text `a bW` with a wide last glyph. -/
def wideWord : LineLayout ℚ where
  fontSize := 10
  width := 15
  ascent := 8
  descent := 2
  runs := [⟨0, [⟨1, 0, 0, 0, false⟩, ⟨2, 2, 0, 1, false⟩, ⟨3, 3, 0, 2, false⟩,
    ⟨4, 7, 0, 3, false⟩]⟩]
  len := 4

theorem wideWord_valid : IndexValid "a bW".toList wideWord.glyphs := by
  intro glyph hmem
  have hall : ∀ index < 4, ∃ ch, charAt "a bW".toList index = .ok ch := by
    intro index hlt
    match index, hlt with
    | 0, _ => exact ⟨'a', rfl⟩
    | 1, _ => exact ⟨' ', rfl⟩
    | 2, _ => exact ⟨'b', rfl⟩
    | 3, _ => exact ⟨'W', rfl⟩
  have hindices : ∀ index ∈ wideWord.glyphs.map GlyphAt.index, index < 4 := by decide +kernel
  exact hall glyph.index (hindices _ (mem_map_of_mem hmem))

theorem wideWord_origin : ∀ first, wideWord.glyphs.head? = some first → first.x = 0 := by
  intro first hfirst
  cases hfirst
  rfl

theorem wideWord_mono : wideWord.glyphs.Pairwise (fun a b => a.x ≤ b.x) := by decide +kernel

theorem visualLines_fit_iff_wideWord :
    ∃ boundaries, wideWord.computeWrapBoundaries "a bW".toList 12 none = .ok boundaries ∧
      boundaries.Pairwise (fun a b => a.lt b = true) ∧
      (∀ boundary ∈ boundaries, ∃ glyph ∈ wideWord.glyphs, glyph.boundary = boundary) ∧
      ((∀ line ∈ wideWord.visualLines boundaries, Fits "a bW".toList 12 line) ↔
        NoOvershoot wideWord "a bW".toList 12) :=
  visualLines_fit_iff wideWord_valid wideWord_origin wideWord_mono 12

/-- The line is broken before the second word, which does not fit into a line. -/
theorem visualLines_not_fit : ¬ ∀ (layout : LineLayout ℚ) (text : List Char),
    IndexValid text layout.glyphs →
    (∀ first, layout.glyphs.head? = some first → first.x = 0) →
    layout.glyphs.Pairwise (fun a b => a.x ≤ b.x) → ∀ wrapWidth,
    ∃ boundaries, layout.computeWrapBoundaries text wrapWidth none = .ok boundaries ∧
      boundaries.Pairwise (fun a b => a.lt b = true) ∧
      (∀ boundary ∈ boundaries, ∃ glyph ∈ layout.glyphs, glyph.boundary = boundary) ∧
      ∀ line ∈ layout.visualLines boundaries, Fits text wrapWidth line := by
  intro h
  obtain ⟨boundaries, hresult, _, _, hfits⟩ :=
    h wideWord "a bW".toList wideWord_valid wideWord_origin wideWord_mono 10
  have hbreak : wideWord.computeWrapBoundaries "a bW".toList 10 none = .ok [⟨0, 2⟩] := by
    decide +kernel
  rw [hbreak] at hresult
  cases hresult
  -- the second line has the glyphs of `b` and `W`
  have hwide := hfits ⟨[⟨⟨0, 2⟩, 2, 3⟩, ⟨⟨0, 3⟩, 3, 7⟩], 15⟩ (.tail _ (.head _)) (by decide) ?_
  · exact absurd hwide (by decide +kernel)
  · intro glyph hmem hnewline
    have hchars : ∀ index ∈ [2, 3], charAt "a bW".toList index ≠ .ok '\n' := by decide
    have hindex : glyph.index ∈ [2, 3] := mem_map_of_mem (f := GlyphAt.index) hmem
    exact hchars glyph.index hindex hnewline

end LineLayout

end Gpui
