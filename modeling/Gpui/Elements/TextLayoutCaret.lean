import Gpui.Elements.TextLayout
import Gpui.Text.CaretWidth

/-! # Caret positions in a text of several lines

    The point of an index is looked up from the first line on.  A point at the border of
    two lines is left to the upper one, although it is the point of an index of the lower
    one: the upper line has no visual line there, and answers with its start.

    * `positionForIndexFrom_skip` and `indexForPositionFrom_skip` go over the lines above.
    * `indexForPosition_bottom` is what a line answers at its lower border.
    * **`found_iff`** is when an index is found again at its point. -/

namespace Gpui

open List

namespace TextLayout

open WindowTextSystem (WrappedLine)
open WrappedLineLayout (Names)

variable {X C : Type} [Field X] [LinearOrder X]

/-! ### Section 1: The lines above -/

/-- The height of some lines. -/
def linesHeight (lineHeight : X) (lines : List (WrappedLine X C)) : X :=
  (lines.map (fun line => (line.layout.size lineHeight).height)).sum

/-- The bytes of some lines, each with a newline behind it. -/
def linesLen (lines : List (WrappedLine X C)) : Nat :=
  (lines.map (fun line => line.layout.len + 1)).sum

theorem linesHeight_cons (lineHeight : X) (line : WrappedLine X C)
    (lines : List (WrappedLine X C)) :
    linesHeight lineHeight (line :: lines) =
      (line.layout.size lineHeight).height + linesHeight lineHeight lines := by
  unfold linesHeight
  rw [map_cons, sum_cons]

omit [Field X] [LinearOrder X] in
theorem linesLen_cons (line : WrappedLine X C) (lines : List (WrappedLine X C)) :
    linesLen (line :: lines) = line.layout.len + 1 + linesLen lines := by
  unfold linesLen
  rw [map_cons, sum_cons]

theorem linesHeight_concat (lineHeight : X) (lines : List (WrappedLine X C))
    (line : WrappedLine X C) :
    linesHeight lineHeight (lines ++ [line]) =
      linesHeight lineHeight lines + (line.layout.size lineHeight).height := by
  unfold linesHeight
  rw [map_append, List.sum_append, map_singleton, List.sum_singleton]

omit [Field X] [LinearOrder X] in
theorem linesLen_concat (lines : List (WrappedLine X C)) (line : WrappedLine X C) :
    linesLen (lines ++ [line]) = linesLen lines + (line.layout.len + 1) := by
  unfold linesLen
  rw [map_append, List.sum_append, map_singleton, List.sum_singleton]

/-- The lines above an index are skipped. -/
theorem positionForIndexFrom_skip (lineHeight : X) (before : List (WrappedLine X C))
    (line : WrappedLine X C) (after : List (WrappedLine X C)) (origin : Point X) (start : Nat)
    {index : Nat} (hindex : index ≤ line.layout.len) :
    positionForIndexFrom lineHeight (start + linesLen before + index) origin start
        (before ++ line :: after) =
      (line.layout.positionForIndex index lineHeight).map (Option.map (fun position =>
        ⟨origin.x + position.x, origin.y + linesHeight lineHeight before + position.y⟩)) := by
  induction before generalizing origin start with
  | nil =>
    have hlen : linesLen ([] : List (WrappedLine X C)) = 0 := rfl
    have hheight : linesHeight lineHeight ([] : List (WrappedLine X C)) = 0 := rfl
    rw [hlen, hheight, Nat.add_zero, add_zero, nil_append, positionForIndexFrom]
    rw [if_neg (by omega), if_neg (by omega), Nat.add_sub_cancel_left]
    cases line.layout.positionForIndex index lineHeight <;> rfl
  | cons first rest ih =>
    rw [cons_append, positionForIndexFrom]
    rw [linesLen_cons, if_neg (by omega), if_pos (by omega)]
    have hsum : start + (first.layout.len + 1 + linesLen rest) + index =
        start + first.layout.len + 1 + linesLen rest + index := by omega
    rw [hsum, ih, linesHeight_cons, add_assoc origin.y]

variable [IsStrictOrderedRing X]

variable {lineHeight : X}

theorem size_height_pos (hpos : 0 < lineHeight) (line : WrappedLine X C) :
    0 < (line.layout.size lineHeight).height :=
  mul_pos hpos (Nat.cast_pos.mpr (Nat.succ_pos _))

theorem linesHeight_nonneg (hpos : 0 < lineHeight)
    (lines : List (WrappedLine X C)) : 0 ≤ linesHeight lineHeight lines := by
  apply sum_nonneg
  intro height hmem
  obtain ⟨line, _, rfl⟩ := mem_map.mp hmem
  exact (size_height_pos hpos line).le

variable [FloorSemiring X]

/-- The lines above a point are skipped. -/
theorem indexForPositionFrom_skip (hpos : 0 < lineHeight) (position : Point X)
    (before after : List (WrappedLine X C)) (origin : Point X) (start : Nat)
    (hbelow : before ≠ [] → origin.y + linesHeight lineHeight before < position.y) :
    indexForPositionFrom lineHeight position origin start (before ++ after) =
      indexForPositionFrom lineHeight position
        ⟨origin.x, origin.y + linesHeight lineHeight before⟩ (start + linesLen before) after := by
  induction before generalizing origin start with
  | nil =>
    have hlen : linesLen ([] : List (WrappedLine X C)) = 0 := rfl
    have hheight : linesHeight lineHeight ([] : List (WrappedLine X C)) = 0 := rfl
    rw [hlen, hheight, Nat.add_zero, add_zero]
    rfl
  | cons first rest ih =>
    have hlt := hbelow (cons_ne_nil _ _)
    rw [linesHeight_cons] at hlt
    have hrest := linesHeight_nonneg hpos rest
    rw [cons_append, indexForPositionFrom]
    rw [if_pos (by linarith), ih, linesHeight_cons, linesLen_cons]
    · congr 1
      · rw [add_assoc]
      · omega
    · intro _
      linarith

/-! ### Section 2: A line and a point in it -/

/-- What a line answers, for the whole text. -/
def shift (start : Nat) : Except Nat Nat → Except Nat Nat
  | .ok index    => .ok (start + index)
  | .error index => .error (start + index)

theorem names_shift_iff (start : Nat) (answer : Except Nat Nat) (index : Nat) :
    Names (shift start answer) (start + index) ↔ Names answer index := by
  unfold Names
  cases answer with
  | ok found => simp [shift]
  | error found => simp [shift]

/-- A point in a line, or at its lower border, is looked up there. -/
theorem indexForPositionFrom_line (hpos : 0 < lineHeight)
    (before : List (WrappedLine X C)) (line : WrappedLine X C) (after : List (WrappedLine X C))
    (origin : Point X) {point : Point X} {answer : Except Nat Nat}
    (hbelow : before ≠ [] → 0 < point.y) (hinside : point.y ≤ (line.layout.size lineHeight).height)
    (hanswer : line.layout.indexForPosition point lineHeight = .ok answer) :
    indexForPositionFrom lineHeight
        ⟨origin.x + point.x, origin.y + linesHeight lineHeight before + point.y⟩ origin 0
        (before ++ line :: after) = .ok (shift (linesLen before) answer) := by
  have hskip := indexForPositionFrom_skip hpos
    ⟨origin.x + point.x, origin.y + linesHeight lineHeight before + point.y⟩ before
    (line :: after) origin 0 (fun hne => lt_add_of_pos_right _ (hbelow hne))
  rw [hskip, indexForPositionFrom]
  dsimp only
  rw [if_neg (by linarith), add_sub_cancel_left, add_sub_cancel_left, hanswer, Nat.zero_add]
  cases answer <;> rfl

/-- At its lower border a line has no visual line. -/
theorem indexForPosition_bottom (hpos : 0 < lineHeight) (layout : WrappedLineLayout X) (x : X) :
    layout.indexForPosition ⟨x, (layout.size lineHeight).height⟩ lineHeight = .ok (.error 0) := by
  have hrow : ⌊(layout.size lineHeight).height / lineHeight⌋₊ =
      layout.wrapBoundaries.length + 1 := by
    unfold WrappedLineLayout.size
    rw [mul_comm, mul_div_assoc, div_self hpos.ne', mul_one, Nat.floor_natCast]
  have hnone : layout.wrapBoundaries[layout.wrapBoundaries.length + 1 - 1]? = none := by
    exact getElem?_eq_none le_rfl
  unfold WrappedLineLayout.indexForPosition WrappedLineLayout.indexForPosition'
  dsimp only
  rw [hrow]
  unfold WrappedLineLayout.wrappedLineStart
  rw [if_pos (Nat.succ_pos _), hnone]
  rfl

/-- The upper one of two lines takes a point at the border. -/
theorem indexForPositionFrom_border (hpos : 0 < lineHeight)
    (front : List (WrappedLine X C)) (prev : WrappedLine X C) (after : List (WrappedLine X C))
    (origin : Point X) (x : X) :
    indexForPositionFrom lineHeight
        ⟨origin.x + x, origin.y + linesHeight lineHeight (front ++ [prev])⟩ origin 0
        (front ++ prev :: after) = .ok (.error (linesLen front)) := by
  have hline := indexForPositionFrom_line hpos front prev after origin
    (fun _ => size_height_pos hpos prev) le_rfl (indexForPosition_bottom hpos prev.layout x)
  rw [linesHeight_concat, ← add_assoc]
  exact hline

/-! ### Section 3: The result -/

/-- **An index is found again at its point** iff its line is the first one or was wrapped
    before the index, and the index is within the width of its line. -/
theorem found_iff (elementState : TextLayoutInner X C) (bounds : Bounds X)
    (hbounds : elementState.bounds = some bounds) (hheight : 0 < elementState.lineHeight)
    (hlines : ∀ line ∈ elementState.lines, line.layout.Laid)
    (before : List (WrappedLine X C)) (line : WrappedLine X C) (after : List (WrappedLine X C))
    (hsplit : elementState.lines = before ++ line :: after) (index : Nat)
    (hindex : (∃ glyph ∈ line.layout.unwrappedLayout.glyphs, glyph.index = index) ∨
      index = line.layout.len) :
    ∃ position answer,
      positionForIndex (some elementState) (linesLen before + index) = .ok (some position) ∧
      indexForPosition (some elementState) position = .ok answer ∧
      (Names answer (linesLen before + index) ↔
        (before = [] ∨ line.layout.BehindWrap index) ∧ line.layout.WithinWidth index) := by
  have hmem : line ∈ elementState.lines := by
    rw [hsplit]
    exact mem_append_right before mem_cons_self
  have hlaid := hlines line hmem
  obtain ⟨row, point, answer, hcaret⟩ := hlaid.caret hheight hindex
  have hlen : index ≤ line.layout.len := by
    rcases hindex with ⟨glyph, hglyph, rfl⟩ | rfl
    · exact hlaid.indices glyph hglyph
    · exact le_rfl
  -- the point of the index, in its line and in the text
  have hrow : 0 ≤ point.y ∧ point.y ≤ (line.layout.size elementState.lineHeight).height := by
    have hle : (row : X) ≤ (line.layout.wrapBoundaries.length + 1 : Nat) :=
      Nat.cast_le.mpr (hcaret.row_le.trans (Nat.le_succ _))
    rw [hcaret.y, mul_comm]
    exact ⟨mul_nonneg hheight.le (Nat.cast_nonneg _), mul_le_mul_of_nonneg_left hle hheight.le⟩
  have habove := linesHeight_nonneg hheight before
  have hposition := positionForIndexFrom_skip elementState.lineHeight before line after
    bounds.origin 0 hlen
  rw [Nat.zero_add, hcaret.position] at hposition
  refine ⟨⟨bounds.origin.x + point.x,
    bounds.origin.y + linesHeight elementState.lineHeight before + point.y⟩, ?_⟩
  have hlookup : ∀ answer : Except Nat Nat,
      indexForPositionFrom elementState.lineHeight ⟨bounds.origin.x + point.x,
        bounds.origin.y + linesHeight elementState.lineHeight before + point.y⟩ bounds.origin 0
        (before ++ line :: after) = .ok answer →
      positionForIndex (some elementState) (linesLen before + index) =
          .ok (some ⟨bounds.origin.x + point.x,
            bounds.origin.y + linesHeight elementState.lineHeight before + point.y⟩) ∧
        indexForPosition (some elementState) ⟨bounds.origin.x + point.x,
            bounds.origin.y + linesHeight elementState.lineHeight before + point.y⟩ =
          .ok answer := by
    intro answer hanswer
    unfold positionForIndex indexForPosition
    dsimp only
    rw [hbounds]
    dsimp only
    rw [hsplit, if_neg (by linarith)]
    exact ⟨hposition, hanswer⟩
  by_cases hborder : before = [] ∨ line.layout.BehindWrap index
  · -- the point is below the lines above
    have hbelow : before ≠ [] → 0 < point.y := by
      intro hne
      rw [hcaret.y]
      exact mul_pos (Nat.cast_pos.mpr (hcaret.row_pos.mpr (hborder.resolve_left hne))) hheight
    obtain ⟨hto, hfrom⟩ := hlookup _ (indexForPositionFrom_line hheight before line after
      bounds.origin hbelow hrow.2 hcaret.hit)
    refine ⟨_, hto, hfrom, ?_⟩
    rw [names_shift_iff, hcaret.found_iff, and_iff_right hborder]
  · -- the point is at the border to the line above
    have hfirst := hborder
    rw [not_or, ← hcaret.row_pos, Nat.pos_iff_ne_zero, not_not] at hborder
    obtain ⟨hne, hzero⟩ := hborder
    have hy : point.y = 0 := by
      rw [hcaret.y, hzero, Nat.cast_zero, zero_mul]
    obtain ⟨front, prev, rfl⟩ := (eq_nil_or_concat' before).resolve_left hne
    rw [hy, add_zero, append_assoc] at hlookup
    rw [hy, add_zero]
    obtain ⟨hto, hfrom⟩ := hlookup _ (indexForPositionFrom_border hheight front prev
      (line :: after) bounds.origin point.x)
    refine ⟨_, hto, hfrom, iff_of_false ?_ (fun hplace => hfirst hplace.1)⟩
    intro hnames
    rw [linesLen_concat] at hnames
    rcases hnames with hok | herror
    · cases hok
    · have heq := Except.error.inj herror
      omega

/-- Two lines of 18, each wrapped before its second glyph. -/
def twoLines : TextLayoutInner ℚ Nat where
  len := 5
  lines := List.replicate 2 ⟨WrappedLineLayout.twoRows, [], ['a', 'b'], []⟩
  lineHeight := 18
  wrapWidth := some 10
  truncateWidth := none
  size := some ⟨10, 72⟩
  bounds := some ⟨⟨5, 7⟩, ⟨10, 72⟩⟩

theorem twoLines_laid : ∀ line ∈ twoLines.lines, line.layout.Laid := by
  intro line hline
  rw [eq_of_mem_replicate hline]
  exact WrappedLineLayout.twoRows_regular.laid

/-- The second glyph of the second line is found. -/
theorem found_iff_secondGlyph :
    ∃ position answer,
      positionForIndex (some twoLines)
          (linesLen [(⟨WrappedLineLayout.twoRows, [], ['a', 'b'], []⟩ : WrappedLine ℚ Nat)] + 1) =
        .ok (some position) ∧
      indexForPosition (some twoLines) position = .ok answer ∧
      (Names answer (linesLen
          [(⟨WrappedLineLayout.twoRows, [], ['a', 'b'], []⟩ : WrappedLine ℚ Nat)] + 1) ↔
        ([(⟨WrappedLineLayout.twoRows, [], ['a', 'b'], []⟩ : WrappedLine ℚ Nat)] = [] ∨
          WrappedLineLayout.twoRows.BehindWrap 1) ∧ WrappedLineLayout.twoRows.WithinWidth 1) :=
  found_iff twoLines ⟨⟨5, 7⟩, ⟨10, 72⟩⟩ rfl (by decide +kernel) twoLines_laid
    [⟨WrappedLineLayout.twoRows, [], ['a', 'b'], []⟩]
    ⟨WrappedLineLayout.twoRows, [], ['a', 'b'], []⟩ [] rfl 1
    (Or.inl ⟨⟨⟨0, 1⟩, 1, 10⟩, .tail _ (.head _), rfl⟩)

/-- Its first glyph is not: the start of the first line is found. -/
theorem second_line_not_found :
    ¬ ∀ (elementState : TextLayoutInner ℚ Nat) (bounds : Bounds ℚ),
      elementState.bounds = some bounds → 0 < elementState.lineHeight →
      (∀ line ∈ elementState.lines, line.layout.Laid) →
      ∀ before line after, elementState.lines = before ++ line :: after → ∀ index,
        (∃ glyph ∈ line.layout.unwrappedLayout.glyphs, glyph.index = index) ∨
          index = line.layout.len →
        ∃ position answer,
          positionForIndex (some elementState) (linesLen before + index) = .ok (some position) ∧
          indexForPosition (some elementState) position = .ok answer ∧
          Names answer (linesLen before + index) := by
  intro h
  obtain ⟨position, answer, hposition, hanswer, hnames⟩ :=
    h twoLines ⟨⟨5, 7⟩, ⟨10, 72⟩⟩ rfl (by decide +kernel) twoLines_laid
      [⟨WrappedLineLayout.twoRows, [], ['a', 'b'], []⟩]
      ⟨WrappedLineLayout.twoRows, [], ['a', 'b'], []⟩ [] rfl 0
      (Or.inl ⟨⟨⟨0, 0⟩, 0, 0⟩, .head _, rfl⟩)
  have hpoint : positionForIndex (some twoLines) 3 = .ok (some ⟨5, 43⟩) := by decide +kernel
  have hfound : indexForPosition (some twoLines) ⟨5, 43⟩ = .ok (.error 0) := by decide +kernel
  rw [show linesLen _ + 0 = 3 from rfl] at hposition hnames
  rw [hpoint] at hposition
  cases hposition
  rw [hfound] at hanswer
  cases hanswer
  rcases hnames with hok | herror
  · cases hok
  · cases herror

end TextLayout

end Gpui
