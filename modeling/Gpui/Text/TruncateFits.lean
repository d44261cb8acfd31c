import Gpui.Text.CutSpec

/-! # Whether a truncated line fits

    The scan starts with the index 0.  For a cut at the end this index means that nothing
    stays of the line; for a cut at the start, that all but the first character stays.  So a
    line that is cut at its start for a width in which the affix alone does not fit stays as
    long as it is. -/

namespace Gpui

open List

namespace LineWrapper

variable {X : Type} [Field X] [LinearOrder X] {widthForChar : Char → X}

variable (widthForChar) in
/-- A line that is too wide is not cut at its start where no room is left beside the affix,
    unless no width stays behind its first character or the affix takes its place. -/
def RoomForAffix [FloorRing X] (line : List Char) (truncateWidth : X) (affix : List Char)
    (truncateFrom : TruncateFrom) : Prop :=
  truncateFrom = .start → truncateWidth < ((⌊textWidth widthForChar line⌋ : Int) : X) →
    truncateWidth ≤ textWidth widthForChar affix →
      textWidth widthForChar line.tail = 0 ∨ affix = line.take 1

variable [FloorRing X] [IsStrictOrderedRing X]

/-- The scan returns an index exactly if the characters are too wide together. -/
theorem shouldTruncate_isSome_iff (hw : ∀ c, 0 ≤ widthForChar c)
    {truncateWidth suffixWidth width : X} {truncateIx : Nat} {items : List (Nat × Char)} :
    (shouldTruncate widthForChar truncateWidth suffixWidth width truncateIx items).isSome ↔
      items ≠ [] ∧
        truncateWidth < ((⌊width + textWidth widthForChar (items.map Prod.snd)⌋ : Int) : X) := by
  induction items generalizing width truncateIx with
  | nil => simp [shouldTruncate]
  | cons item rest ih =>
    obtain ⟨ix, c⟩ := item
    rw [shouldTruncate, map_cons, textWidth_cons, ← add_assoc]
    split
    · -- it is too wide here, and only gets wider
      rename_i hover
      have hrest := Wrapping.textWidth_nonneg hw (rest.map Prod.snd)
      have hfloor : ⌊width + widthForChar c⌋
          ≤ ⌊width + widthForChar c + textWidth widthForChar (rest.map Prod.snd)⌋ :=
        Int.floor_le_floor (by linarith)
      have hcast := (Int.cast_le (R := X)).2 hfloor
      exact ⟨fun _ => ⟨cons_ne_nil _ _, lt_of_lt_of_le hover hcast⟩, fun _ => rfl⟩
    · rename_i hnot
      rw [ih]
      cases rest with
      | nil =>
        rw [map_nil, textWidth, map_nil, sum_nil, add_zero]
        constructor
        · intro h
          exact absurd rfl h.1
        · intro h
          exact absurd h.2 hnot
      | cons next rest =>
        constructor
        · intro h
          exact ⟨cons_ne_nil _ _, h.2⟩
        · intro h
          exact ⟨cons_ne_nil _ _, h.2⟩

omit [FloorRing X] in
theorem textWidth_rdropWhile (hw : ∀ c, 0 ≤ widthForChar c) (p : Char → Bool) (text : List Char) :
    textWidth widthForChar (text.rdropWhile p) ≤ textWidth widthForChar text := by
  obtain ⟨dropped, heq⟩ := rdropWhile_prefix p text
  have hdropped := Wrapping.textWidth_nonneg hw dropped
  calc textWidth widthForChar (text.rdropWhile p)
      ≤ textWidth widthForChar (text.rdropWhile p) + textWidth widthForChar dropped := by linarith
    _ = textWidth widthForChar text := by rw [← textWidth_append, heq]

/-! ## The three ways to cut -/

section Cuts

variable {S : Type} (line affix : List Char) (truncateWidth : X) (runs : List (TextRun S))

theorem truncateLine_stop_fits (hw : ∀ c, 0 ≤ widthForChar c) :
    ∃ result runs', truncateLine widthForChar line truncateWidth affix runs .stop
        = .ok (result, runs') ∧
      (result ≠ line → textWidth widthForChar result
        ≤ max truncateWidth (textWidth widthForChar affix)) := by
  rcases truncateLine_stop widthForChar line affix truncateWidth runs with
    hsame | ⟨front, c, rest, hline, htruncate, hfits⟩
  · exact ⟨line, runs, hsame, fun hne => absurd rfl hne⟩
  · have hcut := truncateAtEnd_append front (c :: rest) affix runs
    rw [← hline] at hcut
    refine ⟨_, _, htruncate.trans hcut, fun _ => ?_⟩
    have htrim := textWidth_rdropWhile hw isTrimmed front
    rw [textWidth_append]
    rcases hfits with hempty | hlt
    · -- nothing stays beside the affix
      rw [hempty] at htrim ⊢
      refine le_max_of_le_right ?_
      have hzero : textWidth widthForChar [] = 0 := rfl
      linarith
    · exact le_max_of_le_left (by linarith)

theorem truncateLine_middle_fits :
    ∃ result runs', truncateLine widthForChar line truncateWidth affix runs .middle
        = .ok (result, runs') ∧
      (result ≠ line → textWidth widthForChar result
        ≤ max truncateWidth (textWidth widthForChar affix)) := by
  rcases truncateLine_middle widthForChar line affix truncateWidth runs with
    ⟨_, hsame⟩ | ⟨_, front, removed, back, _, _, htruncate, hfits⟩
  · exact ⟨line, runs, hsame, fun hne => absurd rfl hne⟩
  · refine ⟨_, _, htruncate, fun _ => ?_⟩
    rw [textWidth_append, textWidth_append]
    rcases hfits with ⟨hfront, hback⟩ | hle
    · rw [hfront, hback]
      refine le_max_of_le_right ?_
      have hzero : textWidth widthForChar [] = 0 := rfl
      linarith
    · exact le_max_of_le_left hle

/-- The scan from the end finds the line too wide exactly if it is. -/
theorem shouldTruncateLine_start_isSome_iff (hw : ∀ c, 0 ≤ widthForChar c) :
    (shouldTruncateLine widthForChar line truncateWidth affix .start).isSome ↔
      line ≠ [] ∧ truncateWidth < ((⌊textWidth widthForChar line⌋ : Int) : X) := by
  refine (shouldTruncate_isSome_iff hw).trans ?_
  rw [map_reverse, map_charIndices, textWidth_reverse, zero_add]
  cases line <;> simp [charIndices]

/-- Where only the first character is cut off, the rest beside the affix fits exactly if
    there is room. -/
theorem fits_iff_roomForAffix (hw : ∀ c, 0 ≤ widthForChar c) (c : Char) (kept : List Char)
    (hover : truncateWidth < ((⌊textWidth widthForChar (c :: kept)⌋ : Int) : X))
    (hle : truncateWidth ≤ textWidth widthForChar affix) :
    (affix ++ kept ≠ c :: kept → textWidth widthForChar (affix ++ kept)
        ≤ max truncateWidth (textWidth widthForChar affix)) ↔
      RoomForAffix widthForChar (c :: kept) truncateWidth affix .start := by
  have hkept := Wrapping.textWidth_nonneg hw kept
  rw [textWidth_append, max_eq_right hle]
  constructor
  · intro hfits _ _ _
    by_cases hsame : affix ++ kept = c :: kept
    · exact .inr ((append_left_inj kept).1 hsame)
    · left
      have := hfits hsame
      rw [tail_cons]
      linarith
  · intro hroom hne
    rcases hroom rfl hover hle with hzero | heq
    · rw [tail_cons] at hzero
      rw [hzero, add_zero]
    · refine absurd ?_ hne
      rw [heq]
      rfl

theorem truncateLine_start_fits_iff (hw : ∀ c, 0 ≤ widthForChar c) :
    ∃ result runs', truncateLine widthForChar line truncateWidth affix runs .start
        = .ok (result, runs') ∧
      ((result ≠ line → textWidth widthForChar result
          ≤ max truncateWidth (textWidth widthForChar affix)) ↔
        RoomForAffix widthForChar line truncateWidth affix .start) := by
  have hscan := shouldTruncateLine_start_isSome_iff line affix truncateWidth hw
  rcases truncateLine_start widthForChar line affix truncateWidth runs with
    ⟨hnone, hsame⟩ | ⟨removed, c, kept, hline, hsome, htruncate, hcase⟩
  · -- the line is not too wide
    refine ⟨line, runs, hsame, iff_of_true (fun hne => absurd rfl hne) ?_⟩
    intro _ hover _
    cases line with
    | nil => exact .inl rfl
    | cons c rest =>
      have hsome := hscan.2 ⟨cons_ne_nil _ _, hover⟩
      rw [hnone] at hsome
      cases hsome
  · refine ⟨_, _, htruncate, ?_⟩
    have hover := (hscan.1 hsome).2
    have hkept := Wrapping.textWidth_nonneg hw kept
    by_cases hle : truncateWidth ≤ textWidth widthForChar affix
    · -- only the first character is cut off
      have hremoved : removed = [] := by
        rcases hcase with ⟨hempty, _⟩ | hlt
        · exact hempty
        · exact absurd hlt (by linarith)
      rw [hremoved, nil_append] at hline
      subst hline
      exact fits_iff_roomForAffix affix truncateWidth hw c kept hover hle
    · refine iff_of_true (fun _ => ?_) (fun _ _ hno => absurd hno hle)
      rcases hcase with ⟨_, hle'⟩ | hlt
      · exact absurd hle' hle
      · rw [textWidth_append]
        exact le_max_of_le_left (by linarith)

end Cuts

end LineWrapper

end Gpui
