import Gpui.Text.CaretSpec

/-! # Caret positions beyond the width of a line

    The platform can place a glyph to the right of the width of its line.  A point there is
    answered with the end of the visual line, so that such a glyph is not found again.

    * `Laid.caret` is what the two directions do for an index of a line.
    * `Caret.found_iff`, in it, is when the index is found again. -/

namespace Gpui

open List

namespace WrappedLineLayout

variable {X : Type} [Field X] [LinearOrder X] {layout : WrappedLineLayout X}

/-- The line was wrapped before the index. -/
def BehindWrap (layout : WrappedLineLayout X) (index : Nat) : Prop :=
  ∃ glyph ∈ layout.unwrappedLayout.glyphs,
    glyph.boundary ∈ layout.wrapBoundaries ∧ glyph.index < index

/-- The place of an index is not right of the line, or the line ends there. -/
structure WithinWidth (layout : WrappedLineLayout X) (index : Nat) : Prop where
  glyph : ∀ glyph ∈ layout.unwrappedLayout.glyphs, glyph.index = index →
    glyph.x < layout.unwrappedLayout.width ∨ index = layout.len ∨ layout.EndsLine index
  /-- Behind all glyphs: no visual line starts right of the width. -/
  textEnd : (∀ glyph ∈ layout.unwrappedLayout.glyphs, glyph.index ≠ index) →
    (layout.unwrappedLayout.glyphs = [] →
      layout.len = 0 ∨ layout.unwrappedLayout.width ≤ 0) ∧
    ∀ glyph ∈ layout.unwrappedLayout.glyphs,
      layout.unwrappedLayout.glyphs.head? = some glyph ∨
        glyph.boundary ∈ layout.wrapBoundaries →
      glyph.x ≤ layout.unwrappedLayout.width

/-- An answer names an index, as one in the line or as the end of it. -/
def Names (answer : Except Nat Nat) (index : Nat) : Prop :=
  answer = .ok index ∨ answer = .error index

/-- The point of an index, its visual line, and what is found at the point. -/
structure Caret (layout : WrappedLineLayout X) [FloorSemiring X] (lineHeight : X)
    (index row : Nat) (point : Point X) (answer : Except Nat Nat) : Prop where
  position : layout.positionForIndex index lineHeight = .ok (some point)
  y : point.y = row * lineHeight
  row_le : row ≤ layout.wrapBoundaries.length
  row_pos : 0 < row ↔ layout.BehindWrap index
  hit : layout.indexForPosition point lineHeight = .ok answer
  found_iff : Names answer index ↔ layout.WithinWidth index

/-! ### Section 1: One visual line -/

variable {above below : List (LineLayout.GlyphAt X)} {start stop : Nat × X}

omit [Field X] in
theorem x_le_of_index_le (h : layout.unwrappedLayout.Ordered) {a b : LineLayout.GlyphAt X}
    (ha : a ∈ layout.unwrappedLayout.glyphs) (hb : b ∈ layout.unwrappedLayout.glyphs)
    (hle : a.index ≤ b.index) : a.x ≤ b.x := by
  refine not_lt.1 ?_
  intro hlt
  have hindex := (h.x_lt_iff hb ha).1 hlt
  omega

variable {glyph : LineLayout.GlyphAt X}

theorem withinWidth_glyph_iff (h : layout.unwrappedLayout.Ordered)
    (hglyph : glyph ∈ layout.unwrappedLayout.glyphs) :
    layout.WithinWidth glyph.index ↔ glyph.x < layout.unwrappedLayout.width ∨
      glyph.index = layout.len ∨ layout.EndsLine glyph.index := by
  constructor
  · intro hwithin
    exact hwithin.glyph glyph hglyph rfl
  · intro hplace
    refine ⟨?_, fun hnone => absurd rfl (hnone glyph hglyph)⟩
    intro other hother heq
    -- glyphs with the same index are the same
    have hle := x_le_of_index_le h hother hglyph heq.le
    exact hplace.imp_left hle.trans_lt

omit [Field X] in
/-- Left of the width and of the end of its visual line, the start of a glyph is found. -/
theorem indexInRow_inside (h : layout.unwrappedLayout.Ordered)
    (hglyph : glyph ∈ layout.unwrappedLayout.glyphs) (hright : start.2 ≤ glyph.x)
    (hwidth : glyph.x < layout.unwrappedLayout.width) (hstop : glyph.x < stop.2) :
    layout.indexInRow start stop glyph.x = .ok glyph.index := by
  unfold indexInRow
  rw [if_neg (not_lt.2 hright), if_neg (not_le.2 hstop), h.indexForX_glyph hglyph hwidth]

omit [Field X] in
/-- Right of one of them, the end of the visual line is. -/
theorem indexInRow_beyond {x : X} (hright : start.2 ≤ x)
    (hcases : layout.unwrappedLayout.width ≤ x ∨ stop.2 ≤ x) :
    layout.indexInRow start stop x = .error stop.1 := by
  rcases le_or_gt stop.2 x with hstop | hstop
  · exact indexInRow_of_le hright hstop
  · have hwidth := hcases.resolve_right (not_le.2 hstop)
    unfold indexInRow LineLayout.indexForX
    rw [if_neg (not_lt.2 hright), if_neg (not_le.2 hstop), if_pos hwidth]

/-- The start of a glyph is found iff it is left of the width, or its visual line ends
    there. -/
theorem Laid.names_glyph_iff (h : layout.Laid)
    (hends : layout.Ends (above ++ below)) (hglyph : glyph ∈ layout.unwrappedLayout.glyphs)
    (habove : ∀ boundary ∈ above, boundary.index < glyph.index)
    (hbelow : ∀ boundary, below.head? = some boundary → glyph.index ≤ boundary.index)
    (hright : start.2 ≤ glyph.x) (hend : (below.head?.map (fun g => (g.index, g.x))).getD
      (layout.unwrappedLayout.len, layout.unwrappedLayout.width) = stop) :
    Names (layout.indexInRow start stop glyph.x) glyph.index ↔
      layout.WithinWidth glyph.index := by
  rw [withinWidth_glyph_iff h.ordered hglyph,
    endsLine_iff_next hends hglyph habove hbelow]
  have hleft : glyph.x < layout.unwrappedLayout.width → glyph.x < stop.2 →
      layout.indexInRow start stop glyph.x = .ok glyph.index :=
    indexInRow_inside h.ordered hglyph hright
  have herror : ∀ index : Nat, layout.indexInRow start stop glyph.x = .error index →
      (Names (layout.indexInRow start stop glyph.x) glyph.index ↔ index = glyph.index) := by
    intro index hrow
    unfold Names
    rw [hrow]
    simp
  cases hhead : below.head? with
  | none =>
    rw [hhead] at hend
    cases hend
    rcases lt_or_ge glyph.x layout.unwrappedLayout.width with hwidth | hwidth
    · exact iff_of_true (Or.inl (hleft hwidth hwidth)) (Or.inl hwidth)
    · rw [herror _ (indexInRow_beyond hright (Or.inl hwidth))]
      constructor
      · intro hlen
        exact Or.inr (Or.inl hlen.symm)
      · intro hplace
        rcases hplace with hlt | hlen | ⟨boundary, hboundary, _⟩
        · exact absurd hlt (not_lt.2 hwidth)
        · exact hlen.symm
        · cases hboundary
  | some boundary =>
    rw [hhead] at hend
    cases hend
    have hboundary := hends.mem boundary (mem_append_right _ (mem_of_head? hhead))
    rcases (hbelow boundary hhead).eq_or_lt with heq | hlt
    · -- the visual line ends here
      have hle := x_le_of_index_le h.ordered hboundary hglyph heq.ge
      rw [herror _ (indexInRow_beyond hright (Or.inr hle))]
      exact iff_of_true heq.symm (Or.inr (Or.inr ⟨boundary, rfl, heq.symm⟩))
    · have hx := (h.ordered.x_lt_iff hglyph hboundary).2 hlt
      have hlen := h.indices boundary hboundary
      rcases lt_or_ge glyph.x layout.unwrappedLayout.width with hwidth | hwidth
      · exact iff_of_true (Or.inl (hleft hwidth hx)) (Or.inl hwidth)
      · rw [herror _ (indexInRow_beyond hright (Or.inl hwidth))]
        refine iff_of_false hlt.ne' ?_
        intro hplace
        rcases hplace with hlt' | hlen' | ⟨other, hother, heq⟩
        · exact absurd hlt' (not_lt.2 hwidth)
        · omega
        · cases hother
          omega

omit [Field X] in
/-- No glyph is before the first one. -/
theorem first_index_le (h : layout.unwrappedLayout.Ordered) {first : LineLayout.GlyphAt X}
    (hfirst : layout.unwrappedLayout.glyphs.head? = some first)
    (hglyph : glyph ∈ layout.unwrappedLayout.glyphs) : first.index ≤ glyph.index := by
  obtain ⟨rest, hcons⟩ := head?_eq_some_iff.1 hfirst
  have hindices := h.indices
  rw [hcons] at hindices hglyph
  rcases mem_cons.1 hglyph with rfl | hrest
  · exact le_refl _
  · exact (rel_of_pairwise_cons hindices hrest).le

omit [Field X] [LinearOrder X] in
/-- No boundary is behind the last one. -/
theorem boundary_index_le (hends : layout.Ends above) {last : LineLayout.GlyphAt X}
    (hlast : above.getLast? = some last) (hglyph : glyph ∈ layout.unwrappedLayout.glyphs)
    (hboundary : glyph.boundary ∈ layout.wrapBoundaries) : glyph.index ≤ last.index := by
  rw [← hends.boundaries] at hboundary
  obtain ⟨other, hother, hsame⟩ := mem_map.1 hboundary
  obtain rfl := LineLayout.glyphs_boundary_inj (hends.mem other hother) hglyph hsame
  obtain ⟨front, rfl⟩ := getLast?_eq_some_iff.1 hlast
  rcases mem_append.1 hother with hfront | hend
  · exact ((pairwise_append.1 hends.sorted).2.2 other hfront last
      (mem_singleton_self last)).le
  · rw [mem_singleton.1 hend]

/-- The last visual line starts before the end of the text, and right of all others. -/
theorem Laid.last_start (h : layout.Laid) {first : LineLayout.GlyphAt X}
    (hfirst : layout.unwrappedLayout.glyphs.head? = some first)
    (hends : layout.Ends above)
    (hbefore : ∀ glyph ∈ layout.unwrappedLayout.glyphs, glyph.index < layout.len)
    (hstart : (above.getLast?.map (fun g => (g.index, g.x))).getD (0, 0) = start) :
    start.1 < layout.len ∧ (start.2 ≤ layout.unwrappedLayout.width ↔
      ∀ glyph ∈ layout.unwrappedLayout.glyphs,
        layout.unwrappedLayout.glyphs.head? = some glyph ∨
          glyph.boundary ∈ layout.wrapBoundaries →
        glyph.x ≤ layout.unwrappedLayout.width) := by
  have hfirstMem := mem_of_head? hfirst
  cases hlast : above.getLast? with
  | none =>
    -- there is one visual line
    rw [hlast] at hstart
    cases hstart
    have hnone : layout.wrapBoundaries = [] := by
      rw [← hends.boundaries, getLast?_eq_none_iff.1 hlast]
      rfl
    have hx0 := h.origin first hfirst
    refine ⟨Nat.lt_of_le_of_lt (Nat.zero_le _) (hbefore first hfirstMem), ?_⟩
    rw [hnone]
    constructor
    · intro hle glyph _ hplace
      rcases hplace with hhead | hboundary
      · rw [hfirst] at hhead
        obtain rfl := Option.some.inj hhead
        rwa [hx0]
      · cases hboundary
    · intro hplaces
      rw [← hx0]
      exact hplaces first hfirstMem (Or.inl hfirst)
  | some last =>
    rw [hlast] at hstart
    cases hstart
    have hlastMem := mem_of_getLast? hlast
    refine ⟨hbefore last (hends.mem last hlastMem), ?_⟩
    constructor
    · intro hle glyph hglyph hplace
      refine le_trans (x_le_of_index_le h.ordered hglyph (hends.mem last hlastMem) ?_) hle
      rcases hplace with hhead | hboundary
      · exact first_index_le h.ordered hhead (hends.mem last hlastMem)
      · exact boundary_index_le hends hlast hglyph hboundary
    · intro hplaces
      apply hplaces last (hends.mem last hlastMem)
      right
      rw [← hends.boundaries]
      exact mem_map_of_mem hlastMem

/-- The end of the text is found iff its visual line does not start right of the width. -/
theorem Laid.names_end_iff (h : layout.Laid) (hglyphs : layout.unwrappedLayout.glyphs ≠ [])
    (hends : layout.Ends above)
    (hbefore : ∀ glyph ∈ layout.unwrappedLayout.glyphs, glyph.index < layout.len)
    (hstart : (above.getLast?.map (fun g => (g.index, g.x))).getD (0, 0) = start) :
    Names (layout.indexInRow start (layout.len, layout.unwrappedLayout.width)
        layout.unwrappedLayout.width) layout.len ↔
      layout.WithinWidth layout.len := by
  obtain ⟨first, rest, hcons⟩ := exists_cons_of_ne_nil hglyphs
  obtain ⟨hlt, hplaces⟩ :=
    h.last_start (by rw [hcons]; rfl) hends hbefore hstart
  have hwithin : layout.WithinWidth layout.len ↔ start.2 ≤ layout.unwrappedLayout.width := by
    rw [hplaces]
    constructor
    · intro hwithin
      exact (hwithin.textEnd (fun glyph hglyph => (hbefore glyph hglyph).ne)).2
    · intro hplace
      refine ⟨fun glyph hglyph heq => absurd heq (hbefore glyph hglyph).ne, fun _ => ⟨?_, hplace⟩⟩
      intro hnil
      exact absurd hnil hglyphs
  rw [hwithin]
  unfold Names indexInRow
  by_cases hright : layout.unwrappedLayout.width < start.2
  · rw [if_pos hright]
    refine iff_of_false ?_ (not_le.2 hright)
    intro hnames
    rcases hnames with hok | herror
    · cases hok
    · exact absurd (Except.error.inj herror) hlt.ne
  · rw [if_neg hright, if_pos le_rfl]
    exact iff_of_true (Or.inr rfl) (not_lt.1 hright)

/-- A line without glyphs starts and ends at the same place. -/
theorem names_empty_iff (hglyphs : layout.unwrappedLayout.glyphs = []) :
    Names (layout.indexInRow (0, 0) (layout.len, layout.unwrappedLayout.width) 0) layout.len ↔
      layout.WithinWidth layout.len := by
  have hwithin : layout.WithinWidth layout.len ↔
      layout.len = 0 ∨ layout.unwrappedLayout.width ≤ 0 := by
    constructor
    · intro hwithin
      exact (hwithin.textEnd (by simp [hglyphs])).1 hglyphs
    · intro hplace
      exact ⟨by simp [hglyphs], fun _ => ⟨fun _ => hplace, by simp [hglyphs]⟩⟩
  rw [hwithin]
  unfold Names indexInRow LineLayout.indexForX
  rw [if_neg (lt_irrefl _), hglyphs]
  by_cases hwidth : layout.unwrappedLayout.width ≤ 0
  · rw [if_pos hwidth]
    exact iff_of_true (Or.inr rfl) (Or.inr hwidth)
  · -- the index 0 is found
    simp [LineLayout.indexForXFrom, hwidth, eq_comm]

/-! ### Section 2: A wrapped line -/

omit [Field X] [LinearOrder X] in
/-- A line is wrapped before an index iff some of its visual lines lie above it. -/
theorem above_pos_iff (hends : layout.Ends (above ++ below)) {index : Nat}
    (habove : ∀ glyph ∈ above, glyph.index < index)
    (hbelow : ∀ glyph, below.head? = some glyph → index ≤ glyph.index) :
    0 < above.length ↔ layout.BehindWrap index := by
  constructor
  · intro hpos
    obtain ⟨glyph, hglyph⟩ := exists_mem_of_length_pos hpos
    have hboth := mem_append_left below hglyph
    refine ⟨glyph, hends.mem glyph hboth, ?_, habove glyph hglyph⟩
    rw [← hends.boundaries]
    exact mem_map_of_mem hboth
  · intro ⟨glyph, hglyph, hboundary, hlt⟩
    rw [← hends.boundaries] at hboundary
    obtain ⟨other, hother, hsame⟩ := mem_map.1 hboundary
    obtain rfl := LineLayout.glyphs_boundary_inj (hends.mem other hother) hglyph hsame
    rcases mem_append.1 hother with hother | hother
    · exact length_pos_of_mem hother
    · -- those below do not come before the index
      cases below with
      | nil => cases hother
      | cons next rest =>
        have hle := hbelow next rfl
        rcases mem_cons.1 hother with rfl | hother
        · omega
        · have hnext := rel_of_pairwise_cons (pairwise_append.1 hends.sorted).2.1 hother
          omega

variable [IsStrictOrderedRing X] [FloorSemiring X]

/-- **An index of a line has a point, and is found there iff it is within the width.** -/
theorem Laid.caret (h : layout.Laid) {lineHeight : X} (hpos : 0 < lineHeight) {index : Nat}
    (hindex : (∃ glyph ∈ layout.unwrappedLayout.glyphs, glyph.index = index) ∨
      index = layout.len) :
    ∃ row point answer, layout.Caret lineHeight index row point answer := by
  have hlen : index ≤ layout.len := by
    rcases hindex with ⟨glyph, hglyph, rfl⟩ | rfl
    · exact h.indices glyph hglyph
    · exact le_rfl
  obtain ⟨ends, hends⟩ := h.exists_ends
  obtain ⟨above, below, rfl, hposition, habove, hbelow⟩ :=
    positionFrom_eq hends.mem hlen lineHeight 0 0 (Nat.zero_le _)
  rw [hends.boundaries, Nat.zero_add] at hposition
  obtain ⟨start, hstart⟩ :
      ∃ start, (above.getLast?.map (fun g => (g.index, g.x))).getD (0, 0) = start := ⟨_, rfl⟩
  obtain ⟨stop, hend⟩ : ∃ stop, (below.head?.map (fun g => (g.index, g.x))).getD
      (layout.unwrappedLayout.len, layout.unwrappedLayout.width) = stop := ⟨_, rfl⟩
  have hmemAbove : ∀ glyph ∈ above, glyph ∈ layout.unwrappedLayout.glyphs :=
    fun glyph hg => hends.mem glyph (mem_append_left _ hg)
  have hrow : ⌊(above.length : X) * lineHeight / lineHeight⌋₊ = above.length := by
    rw [mul_div_assoc, div_self hpos.ne', mul_one, Nat.floor_natCast]
  have hrows : above.length ≤ layout.wrapBoundaries.length := by
    rw [← hends.boundaries, length_map, length_append]
    exact Nat.le_add_right _ _
  refine ⟨above.length, _, _, hposition, rfl, hrows,
    above_pos_iff hends habove hbelow,
    indexForPosition_row hends.boundaries.symm hends.mem hrow hstart hend, ?_⟩
  by_cases hglyphs : layout.unwrappedLayout.glyphs = []
  · -- the point is the start of the line
    have hnone : above ++ below = [] := by
      apply eq_nil_iff_forall_not_mem.2
      intro glyph hglyph
      have hg := hends.mem glyph hglyph
      rw [hglyphs] at hg
      cases hg
    obtain ⟨rfl, rfl⟩ := append_eq_nil_iff.1 hnone
    cases hstart
    cases hend
    obtain rfl : index = layout.len := hindex.resolve_left (by simp [hglyphs])
    have hx : ∀ i, layout.unwrappedLayout.xForIndex i = layout.unwrappedLayout.width := by
      intro i
      unfold LineLayout.xForIndex
      rw [hglyphs]
      rfl
    rw [hx, hx, sub_self, zero_add]
    exact names_empty_iff hglyphs
  obtain ⟨hstartX, hright⟩ := h.row_start (fun hnil => absurd hnil hglyphs) hmemAbove habove hstart
  rw [hstartX, sub_add_cancel]
  by_cases hglyph : ∃ glyph ∈ layout.unwrappedLayout.glyphs, glyph.index = index
  · obtain ⟨glyph, hg, rfl⟩ := hglyph
    have hx : layout.unwrappedLayout.xForIndex glyph.index = glyph.x :=
      LineLayout.xForIndexFrom_glyph h.ordered.indices hg
    rw [hx]
    exact h.names_glyph_iff hends hg habove hbelow
      (hright glyph hg (Nat.le_refl _)) hend
  · -- the end of the text
    obtain rfl := hindex.resolve_left hglyph
    have hbefore : ∀ glyph ∈ layout.unwrappedLayout.glyphs, glyph.index < layout.len := by
      intro glyph hg
      exact lt_of_le_of_ne (h.indices glyph hg) (fun heq => hglyph ⟨glyph, hg, heq⟩)
    have hx : layout.unwrappedLayout.xForIndex layout.len = layout.unwrappedLayout.width :=
      LineLayout.xForIndexFrom_of_lt hbefore
    have hlast : below = [] := by
      cases below with
      | nil => rfl
      | cons boundary rest =>
        have hboundary := hends.mem boundary (mem_append_right _ mem_cons_self)
        exact absurd (hbefore boundary hboundary) (Nat.not_lt.2 (hbelow boundary rfl))
    subst hlast
    cases hend
    rw [append_nil] at hends
    rw [hx]
    exact h.names_end_iff hglyphs hends hbefore hstart

end WrappedLineLayout

end Gpui
