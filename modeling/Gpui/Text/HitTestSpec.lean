import Gpui.Text.HitTest

/-! # Positions in a line and indices in its text: what comes back

    The places where a caret can stand are the starts of the glyphs and the end of the
    line.  `closest_index_for_x` compares neighbouring starts, and behind the last start it
    goes to the end of the line without comparing. -/

namespace Gpui

open List

namespace LineLayout

variable {X : Type} [Field X] [LinearOrder X]

/-! ### Section 1: The nearest place of the caret -/

/-- Glyphs go to the right and forward in the text. -/
structure Ordered (layout : LineLayout X) : Prop where
  positions : layout.glyphs.Pairwise (fun a b => a.x < b.x)
  indices : layout.glyphs.Pairwise (fun a b => a.index < b.index)

/-- The places of the caret, with the indices in the text. -/
def stops (layout : LineLayout X) : List (Nat × X) :=
  layout.glyphs.map (fun glyph => (glyph.index, glyph.x)) ++ [(layout.len, layout.width)]

/-- The index is that of a place of the caret that is nearest to a position. -/
def Nearest (layout : LineLayout X) (x : X) (index : Nat) : Prop :=
  ∃ stop ∈ layout.stops, stop.1 = index ∧
    ∀ other ∈ layout.stops, |x - stop.2| ≤ |x - other.2|

/-- Up to the start of the last glyph; nearer to the end of the line than to this start; or
    where the index that is returned behind this start is the one of the glyph. -/
def NearStop (layout : LineLayout X) (last : GlyphAt X) (x : X) : Prop :=
  x ≤ last.x ∨ layout.width - x ≤ x - last.x ∨ (layout.len = 1 ∧ last.index = 0) ∨
    (layout.len = last.index ∧ (layout.len = 1 → layout.width / (2 : Nat) < x))

omit [Field X] [LinearOrder X] in
theorem mem_stops {layout : LineLayout X} {stop : Nat × X} :
    stop ∈ layout.stops ↔
      (∃ glyph ∈ layout.glyphs, (glyph.index, glyph.x) = stop) ∨
        stop = (layout.len, layout.width) := by
  unfold stops
  rw [mem_append, mem_map, mem_singleton]

section

variable [IsStrictOrderedRing X]

/-- The loop stops at the first glyph that is not left of the position, with the nearest
    start of all. -/
theorem closestFrom_nearest {x : X} {rest : List (GlyphAt X)} {prev : GlyphAt X}
    (hsorted : (prev :: rest).Pairwise (fun a b => a.x < b.x)) (hprev : prev.x < x)
    (hright : ∃ glyph ∈ rest, x ≤ glyph.x) :
    ∃ glyph ∈ prev :: rest, closestFrom x prev.index prev.x rest = some glyph.index ∧
      ∀ other ∈ prev :: rest, |x - glyph.x| ≤ |x - other.x| := by
  -- induction on the glyphs, from the one before them
  induction rest generalizing prev with
  | nil =>
    obtain ⟨glyph, hmem, _⟩ := hright
    cases hmem
  | cons next rest ih =>
    have hnext : prev.x < next.x := rel_of_pairwise_cons hsorted mem_cons_self
    have hrest := List.Pairwise.of_cons hsorted
    have hafter : ∀ other ∈ rest, next.x < other.x :=
      fun other hother => rel_of_pairwise_cons hrest hother
    unfold closestFrom
    by_cases hx : x ≤ next.x
    · -- the position is between two starts
      have hdprev : |x - prev.x| = x - prev.x := abs_of_pos (sub_pos.2 hprev)
      have hdnext : |x - next.x| = next.x - x := by
        rw [abs_sub_comm]
        exact abs_of_nonneg (sub_nonneg.2 hx)
      have hfar : ∀ other ∈ rest, next.x - x ≤ |x - other.x| := by
        intro other hother
        rw [abs_sub_comm]
        exact le_trans (sub_le_sub_right (hafter other hother).le x) (le_abs_self _)
      rw [if_pos hx]
      by_cases hcloser : next.x - x < x - prev.x
      · refine ⟨next, by simp, if_pos hcloser, ?_⟩
        intro other hother
        rw [hdnext]
        simp only [mem_cons] at hother
        obtain rfl | rfl | hother := hother
        · rw [hdprev]
          exact hcloser.le
        · exact hdnext.ge
        · exact hfar other hother
      · have hle := not_lt.1 hcloser
        refine ⟨prev, by simp, if_neg hcloser, ?_⟩
        intro other hother
        rw [hdprev]
        simp only [mem_cons] at hother
        obtain rfl | rfl | hother := hother
        · exact hdprev.ge
        · rw [hdnext]
          exact hle
        · exact le_trans hle (hfar other hother)
    · -- the start before is not the nearest one
      have hlt := not_le.1 hx
      have hright' : ∃ glyph ∈ rest, x ≤ glyph.x := by
        obtain ⟨glyph, hmem, hle⟩ := hright
        obtain rfl | hmem := mem_cons.1 hmem
        · exact absurd hle hx
        · exact ⟨glyph, hmem, hle⟩
      obtain ⟨glyph, hmem, hresult, hnear⟩ := ih hrest hlt hright'
      rw [if_neg hx]
      refine ⟨glyph, mem_cons_of_mem _ hmem, hresult, ?_⟩
      intro other hother
      obtain rfl | hother := mem_cons.1 hother
      · refine le_trans (hnear next mem_cons_self) ?_
        rw [abs_of_pos (sub_pos.2 hlt), abs_of_pos (sub_pos.2 hprev)]
        linarith
      · exact hnear other hother

omit [IsStrictOrderedRing X] in
theorem closestFrom_none {x : X} {glyphs : List (GlyphAt X)}
    (h : ∀ glyph ∈ glyphs, glyph.x < x) (prevIndex : Nat) (prevX : X) :
    closestFrom x prevIndex prevX glyphs = none := by
  induction glyphs generalizing prevIndex prevX with
  | nil => rfl
  | cons glyph rest ih =>
    have hlt := h glyph mem_cons_self
    rw [closestFrom, if_neg (not_le.2 hlt)]
    exact ih (fun other hother => h other (mem_cons_of_mem _ hother)) _ _

end
variable {layout : LineLayout X} {last : GlyphAt X} {x : X}


omit [Field X] in
/-- The last glyph is the only one that is not left of it. -/
theorem Ordered.lt_last (h : layout.Ordered) (hlast : layout.glyphs.getLast? = some last) :
    ∀ glyph ∈ layout.glyphs, glyph = last ∨ glyph.x < last.x := by
  obtain ⟨front, heq⟩ := getLast?_eq_some_iff.1 hlast
  have hpositions := h.positions
  rw [heq] at hpositions ⊢
  intro glyph hmem
  obtain hmem | hmem := mem_append.1 hmem
  · exact .inr ((pairwise_append.1 hpositions).2.2 glyph hmem last (by simp))
  · exact .inl (mem_singleton.1 hmem)

/-- A position that is not right of all starts goes to the nearest place. -/
theorem nearest_of_le_last [IsStrictOrderedRing X]
    (h : layout.Ordered) {first : GlyphAt X} (hfirst : layout.glyphs.head? = some first)
    (hx0 : first.x = 0) (hi0 : first.index = 0)
    (hlast : layout.glyphs.getLast? = some last) (hwidth : last.x < layout.width)
    (h0 : 0 ≤ x) (hle : x ≤ last.x) : layout.Nearest x (layout.closestIndexForX x) := by
  have hmemlast : last ∈ layout.glyphs := mem_of_getLast? hlast
  obtain ⟨rest, heq⟩ := head?_eq_some_iff.1 hfirst
  -- the loop finds a glyph, and the end of the line is farther than it
  have hfound : ∃ glyph ∈ layout.glyphs, closestFrom x 0 0 layout.glyphs = some glyph.index ∧
      ∀ other ∈ layout.glyphs, |x - glyph.x| ≤ |x - other.x| := by
    obtain rfl | hpos := h0.eq_or_lt
    · refine ⟨first, mem_of_head? hfirst, ?_, ?_⟩
      · rw [heq, closestFrom, hx0, if_pos le_rfl, if_neg (lt_irrefl _), hi0]
      · intro other _
        rw [hx0, sub_zero, abs_zero]
        exact abs_nonneg _
    · have hsorted := h.positions
      rw [heq] at hsorted
      have hright : ∃ glyph ∈ rest, x ≤ glyph.x := by
        rw [heq] at hmemlast
        obtain rfl | hmem := mem_cons.1 hmemlast
        · rw [hx0] at hle
          exact absurd hle (not_le.2 hpos)
        · exact ⟨last, hmem, hle⟩
      obtain ⟨glyph, hmem, hresult, hnear⟩ :=
        closestFrom_nearest hsorted (by rw [hx0]; exact hpos) hright
      refine ⟨glyph, by rw [heq]; exact hmem, ?_, by rw [heq]; exact hnear⟩
      rw [heq, closestFrom, hx0, if_neg (not_le.2 hpos), ← hresult, hx0]
  obtain ⟨glyph, hmem, hresult, hnear⟩ := hfound
  refine ⟨(glyph.index, glyph.x), mem_stops.2 (.inl ⟨glyph, hmem, rfl⟩), ?_, ?_⟩
  · unfold closestIndexForX
    rw [hresult]
  · intro other hother
    obtain ⟨otherGlyph, hotherMem, rfl⟩ | rfl := mem_stops.1 hother
    · exact hnear otherGlyph hotherMem
    · refine le_trans (hnear last hmemlast) ?_
      rw [abs_sub_comm, abs_of_nonneg (sub_nonneg.2 hle), abs_sub_comm]
      exact le_trans (by linarith) (le_abs_self _)

/-- Behind the start of the last glyph only this start and the end of the line are near. -/
theorem nearest_behind_iff [IsStrictOrderedRing X]
    (h : layout.Ordered) (hlast : layout.glyphs.getLast? = some last) (hlt : last.x < x)
    (hxw : x ≤ layout.width) {index : Nat} :
    layout.Nearest x index ↔
      (index = last.index ∧ x - last.x ≤ layout.width - x) ∨
        (index = layout.len ∧ layout.width - x ≤ x - last.x) := by
  have hmemlast : last ∈ layout.glyphs := mem_of_getLast? hlast
  have hdlast : |x - last.x| = x - last.x := abs_of_pos (sub_pos.2 hlt)
  have hdend : |x - layout.width| = layout.width - x := by
    rw [abs_sub_comm]
    exact abs_of_nonneg (sub_nonneg.2 hxw)
  have hfar : ∀ glyph ∈ layout.glyphs, x - last.x ≤ |x - glyph.x| := by
    intro glyph hmem
    obtain rfl | hleft := h.lt_last hlast glyph hmem
    · exact hdlast.ge
    · exact le_trans (by linarith) (le_abs_self _)
  constructor
  · intro hnearest
    obtain ⟨stop, hstop, rfl, hnear⟩ := hnearest
    obtain ⟨glyph, hmem, rfl⟩ | rfl := mem_stops.1 hstop
    · -- a start that is as near as the last one is this one
      have hself := hnear _ (mem_stops.2 (.inl ⟨last, hmemlast, rfl⟩))
      have hend := hnear _ (mem_stops.2 (.inr rfl))
      obtain rfl | hleft := h.lt_last hlast glyph hmem
      · dsimp only at hend
        rw [hdlast, hdend] at hend
        exact .inl ⟨rfl, hend⟩
      · dsimp only at hself
        rw [hdlast, abs_of_pos (by linarith)] at hself
        linarith
    · have hself := hnear _ (mem_stops.2 (.inl ⟨last, hmemlast, rfl⟩))
      rw [hdlast, hdend] at hself
      exact .inr ⟨rfl, hself⟩
  · intro hcase
    match hcase with
    | .inl ⟨hindex, hle⟩ =>
      refine ⟨(last.index, last.x), mem_stops.2 (.inl ⟨last, hmemlast, rfl⟩), hindex.symm, ?_⟩
      intro other hother
      rw [hdlast]
      obtain ⟨glyph, hmem, rfl⟩ | rfl := mem_stops.1 hother
      · exact hfar glyph hmem
      · rw [hdend]
        exact hle
    | .inr ⟨hindex, hle⟩ =>
      refine ⟨(layout.len, layout.width), mem_stops.2 (.inr rfl), hindex.symm, ?_⟩
      intro other hother
      rw [hdend]
      obtain ⟨glyph, hmem, rfl⟩ | rfl := mem_stops.1 hother
      · exact le_trans hle (hfar glyph hmem)
      · exact hdend.ge

/-- The last glyph is at the origin exactly if its index is 0. -/
theorem Ordered.last_origin [IsStrictOrderedRing X]
    (h : layout.Ordered) {first : GlyphAt X} (hfirst : layout.glyphs.head? = some first)
    (hx0 : first.x = 0) (hi0 : first.index = 0) (hlast : layout.glyphs.getLast? = some last) :
    0 ≤ last.x ∧ (last.x = 0 ↔ last.index = 0) := by
  obtain ⟨rest, heq⟩ := head?_eq_some_iff.1 hfirst
  have hmemlast : last ∈ layout.glyphs := mem_of_getLast? hlast
  have hpositions := h.positions
  have hindices := h.indices
  rw [heq] at hpositions hindices hmemlast
  obtain rfl | hmem := mem_cons.1 hmemlast
  · exact ⟨hx0.ge, by rw [hx0, hi0]; simp⟩
  · have hx := rel_of_pairwise_cons hpositions hmem
    have hi := rel_of_pairwise_cons hindices hmem
    rw [hx0] at hx
    refine ⟨hx.le, ?_⟩
    constructor
    · intro hzero
      rw [hzero] at hx
      exact absurd hx (lt_irrefl _)
    · intro hzero
      rw [hi0, hzero] at hi
      exact absurd hi (lt_irrefl _)

/-- Behind the start of the last glyph, where the end of the line is returned. -/
theorem nearStop_iff_end [IsStrictOrderedRing X]
    (hzero : last.index = 0 → last.x = 0) (hlt : last.x < x)
    (hright : layout.len = 1 → layout.width / (2 : Nat) < x) :
    layout.NearStop last x ↔
      (layout.len = last.index ∧ x - last.x ≤ layout.width - x) ∨
        layout.width - x ≤ x - last.x := by
  constructor
  · intro hcase
    match hcase with
    | .inl hle => exact absurd hle (not_le.2 hlt)
    | .inr (.inl hnear) => exact .inr hnear
    | .inr (.inr (.inl ⟨hone, hi⟩)) =>
      -- the middle of the line is left of the point
      have hmiddle := hright hone
      have hx := hzero hi
      right
      linarith
    | .inr (.inr (.inr ⟨hi, _⟩)) =>
      rcases le_total (x - last.x) (layout.width - x) with hnear | hnear
      · exact .inl ⟨hi, hnear⟩
      · exact .inr hnear
  · intro hcase
    match hcase with
    | .inl ⟨hi, _⟩ => exact .inr (.inr (.inr ⟨hi, hright⟩))
    | .inr hnear => exact .inr (.inl hnear)

/-- Behind the start of the only glyph, left of the middle: the start of the line is
    returned. -/
theorem nearStop_iff_start [IsStrictOrderedRing X]
    (hlast0 : 0 ≤ last.x) (hzero : last.x = 0 ↔ last.index = 0) (hlt : last.x < x)
    (hlen : layout.len = 1) (hhalf : x ≤ layout.width / (2 : Nat)) :
    layout.NearStop last x ↔ last.index = 0 := by
  constructor
  · intro hcase
    match hcase with
    | .inl hle => exact absurd hle (not_le.2 hlt)
    | .inr (.inl hnear) =>
      refine hzero.1 ?_
      linarith
    | .inr (.inr (.inl ⟨_, hi⟩)) => exact hi
    | .inr (.inr (.inr ⟨_, hright⟩)) => exact absurd (hright hlen) (not_lt.2 hhalf)
  · intro hi
    exact .inr (.inr (.inl ⟨hlen, hi⟩))

/-- Between the first glyph and the end of the line the index that is returned is that of a
    nearest place, except right of the start of the last glyph where this start is nearer
    than the end. -/
theorem closestIndexForX_nearest_iff [IsStrictOrderedRing X] {layout : LineLayout X}
    (h : layout.Ordered) {first last : GlyphAt X} (hfirst : layout.glyphs.head? = some first)
    (hx0 : first.x = 0) (hi0 : first.index = 0)
    (hlast : layout.glyphs.getLast? = some last) (hwidth : last.x < layout.width) {x : X}
    (h0 : 0 ≤ x) (hxw : x ≤ layout.width) :
    layout.Nearest x (layout.closestIndexForX x) ↔ layout.NearStop last x := by
  by_cases hle : x ≤ last.x
  · constructor
    · intro _
      exact .inl hle
    · intro _
      exact nearest_of_le_last h hfirst hx0 hi0 hlast hwidth h0 hle
  · have hlt := not_le.1 hle
    have hleft : ∀ glyph ∈ layout.glyphs, glyph.x < x := by
      intro glyph hmem
      obtain rfl | hbefore := h.lt_last hlast glyph hmem
      · exact hlt
      · exact hbefore.trans hlt
    obtain ⟨hlast0, hzero⟩ := h.last_origin hfirst hx0 hi0 hlast
    have hresult : layout.closestIndexForX x =
        if layout.len = 1 then (if layout.width / (2 : Nat) < x then 1 else 0) else layout.len := by
      unfold closestIndexForX
      rw [closestFrom_none hleft]
    rw [nearest_behind_iff h hlast hlt hxw, hresult]
    by_cases hleftHalf : layout.len = 1 ∧ x ≤ layout.width / (2 : Nat)
    · -- a line of one glyph, left of its middle
      obtain ⟨hlen, hhalf⟩ := hleftHalf
      rw [if_pos hlen, if_neg (not_lt.2 hhalf), nearStop_iff_start hlast0 hzero hlt hlen hhalf, hlen]
      constructor
      · intro hcase
        rcases hcase with ⟨hi, _⟩ | ⟨hone, _⟩
        · exact hi.symm
        · cases hone
      · intro hi
        refine .inl ⟨hi.symm, ?_⟩
        push_cast at hhalf
        linarith
    · have hright : layout.len = 1 → layout.width / (2 : Nat) < x :=
        fun hlen => not_le.1 fun hhalf => hleftHalf ⟨hlen, hhalf⟩
      have hend : (if layout.len = 1 then (if layout.width / (2 : Nat) < x then 1 else 0)
          else layout.len) = layout.len := by
        split
        · next hlen => rw [if_pos (hright hlen), hlen]
        · rfl
      rw [hend, nearStop_iff_end hzero.2 hlt hright]
      simp

/-- Two glyphs of the same width. -/
def twoGlyphs : LineLayout ℚ where
  fontSize := 10
  width := 20
  ascent := 8
  descent := 2
  runs := [⟨0, [⟨36, 0, 0, 0, false⟩, ⟨37, 10, 0, 1, false⟩]⟩]
  len := 2

theorem twoGlyphs_ordered : twoGlyphs.Ordered where
  positions := by decide +kernel
  indices := by decide +kernel

/-- Right next to the start of the second glyph. -/
theorem closestIndexForX_not_nearest : ¬ ∀ (layout : LineLayout ℚ), layout.Ordered →
    ∀ first last, layout.glyphs.head? = some first → first.x = 0 → first.index = 0 →
      layout.glyphs.getLast? = some last → last.x < layout.width →
      ∀ x, 0 ≤ x → x ≤ layout.width → layout.Nearest x (layout.closestIndexForX x) := by
  intro h
  have hnear := h twoGlyphs twoGlyphs_ordered ⟨⟨0, 0⟩, 0, 0⟩ ⟨⟨0, 1⟩, 1, 10⟩ rfl rfl rfl rfl
    (by decide +kernel) 11 (by decide +kernel) (by decide +kernel)
  have hresult : twoGlyphs.closestIndexForX 11 = 2 := by decide +kernel
  obtain ⟨stop, hmem, hindex, hclose⟩ := hnear
  rw [hresult] at hindex
  -- the end of the line is 9 away, the start of the second glyph 1
  have hstops : ∀ stop ∈ twoGlyphs.stops, stop.1 = 2 → stop.2 = 20 := by decide +kernel
  have hstart := hclose (1, 10) (by decide +kernel)
  rw [hstops stop hmem hindex] at hstart
  exact absurd hstart (by decide +kernel)

theorem closestIndexForX_nearest_iff_twoGlyphs :
    twoGlyphs.Nearest 16 (twoGlyphs.closestIndexForX 16) ↔
      twoGlyphs.NearStop ⟨⟨0, 1⟩, 1, 10⟩ 16 :=
  @closestIndexForX_nearest_iff ℚ _ _ _ _ twoGlyphs_ordered ⟨⟨0, 0⟩, 0, 0⟩ ⟨⟨0, 1⟩, 1, 10⟩
    rfl rfl rfl rfl (by decide +kernel) 16 (by decide +kernel) (by decide +kernel)

end LineLayout

end Gpui
