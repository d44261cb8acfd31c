import Gpui.Text.HitTestSpec

/-! # Caret position and hit testing are inverse

    Both directions find the visual line of an index by the wrap boundaries.  The end of a
    visual line, which is also the start of the next one, is a point of the upper one: from
    the index to the point because the loop stops at the first line that reaches to the
    index, and back because the point is where this line ends. -/

namespace Gpui

open List

namespace LineLayout

variable {X : Type} [Field X] [LinearOrder X] {layout : LineLayout X}

/-! ### Section 1: Glyphs, indices and positions -/

variable {glyph : GlyphAt X} {glyphs : List (GlyphAt X)}

omit [Field X] [LinearOrder X] in
theorem glyphAt_of_mem (h : glyph ∈ layout.glyphs) :
    ∃ shaped, layout.glyphAt glyph.boundary = .ok shaped ∧ shaped.index = glyph.index ∧
      shaped.x = glyph.x := by
  obtain ⟨⟨run, runIx⟩, hrun, hglyph⟩ := mem_flatMap.1 h
  obtain ⟨⟨shaped, glyphIx⟩, hshaped, rfl⟩ := mem_map.1 hglyph
  refine ⟨shaped, ?_, rfl, rfl⟩
  unfold glyphAt
  rw [getIndex_eq_ok (mem_zipIdx_iff_getElem?.1 hrun)]
  exact getIndex_eq_ok (mem_zipIdx_iff_getElem?.1 hshaped)

omit [Field X] in
theorem Ordered.x_lt_iff (h : layout.Ordered) {a b : GlyphAt X} (ha : a ∈ layout.glyphs)
    (hb : b ∈ layout.glyphs) : a.x < b.x ↔ a.index < b.index := by
  constructor
  · exact pairwise_rel h.positions h.indices (fun _ _ => lt_asymm) ha hb
  · exact pairwise_rel h.indices h.positions (fun _ _ => Nat.lt_asymm) ha hb

section

omit [Field X] [LinearOrder X]

theorem xForIndexFrom_of_lt {width : X} {index : Nat}
    (h : ∀ glyph ∈ glyphs, glyph.index < index) : xForIndexFrom width index glyphs = width := by
  induction glyphs with
  | nil => rfl
  | cons glyph rest ih =>
    rw [xForIndexFrom, if_neg (Nat.not_le.2 (h glyph mem_cons_self))]
    exact ih (fun other hother => h other (mem_cons_of_mem _ hother))

theorem xForIndexFrom_glyph {width : X}
    (hsorted : glyphs.Pairwise (fun a b => a.index < b.index)) (h : glyph ∈ glyphs) :
    xForIndexFrom width glyph.index glyphs = glyph.x := by
  induction glyphs with
  | nil => cases h
  | cons first rest ih =>
    obtain rfl | hmem := mem_cons.1 h
    · rw [xForIndexFrom, if_pos (Nat.le_refl _)]
    · have hlt := rel_of_pairwise_cons hsorted hmem
      rw [xForIndexFrom, if_neg (Nat.not_le.2 hlt)]
      exact ih hsorted.of_cons hmem

end

omit [Field X] in
theorem indexForXFrom_glyph
    (hsorted : glyphs.Pairwise (fun a b => b.x < a.x)) (h : glyph ∈ glyphs) :
    indexForXFrom glyph.x glyphs = some glyph.index := by
  induction glyphs with
  | nil => cases h
  | cons first rest ih =>
    obtain rfl | hmem := mem_cons.1 h
    · rw [indexForXFrom, if_pos le_rfl]
    · have hlt := rel_of_pairwise_cons hsorted hmem
      rw [indexForXFrom, if_neg (not_le.2 hlt)]
      exact ih hsorted.of_cons hmem

omit [Field X] in
theorem Ordered.indexForX_glyph (h : layout.Ordered)
    (hmem : glyph ∈ layout.glyphs) (hlt : glyph.x < layout.width) :
    layout.indexForX glyph.x = some glyph.index := by
  have hreverse : layout.glyphs.reverse.Pairwise (fun a b => b.x < a.x) :=
    pairwise_reverse.2 h.positions
  rw [indexForX, if_neg (not_le.2 hlt),
    indexForXFrom_glyph hreverse (mem_reverse.2 hmem)]

end LineLayout

namespace WrappedLineLayout

variable {X : Type} [Field X] [LinearOrder X] {layout : WrappedLineLayout X}

/-! ### Section 2: Visual lines -/

/-- The glyphs of a layout stand in a line, from its start to its width, and its
    boundaries are glyphs of it.  A line without glyphs is empty. -/
structure Regular (layout : WrappedLineLayout X) : Prop where
  ordered : layout.unwrappedLayout.Ordered
  boundaries : layout.wrapBoundaries.Pairwise (fun a b => a.lt b = true)
  named : ∀ boundary ∈ layout.wrapBoundaries,
    ∃ glyph ∈ layout.unwrappedLayout.glyphs, glyph.boundary = boundary
  origin : ∀ first, layout.unwrappedLayout.glyphs.head? = some first → first.x = 0
  inside : ∀ glyph ∈ layout.unwrappedLayout.glyphs,
    glyph.x < layout.unwrappedLayout.width ∧ glyph.index ≤ layout.len
  empty : layout.unwrappedLayout.glyphs = [] → layout.len = 0 ∧ layout.unwrappedLayout.width = 0

/-- The same of a layout whose glyphs may reach beyond its width. -/
structure Laid (layout : WrappedLineLayout X) : Prop where
  ordered : layout.unwrappedLayout.Ordered
  boundaries : layout.wrapBoundaries.Pairwise (fun a b => a.lt b = true)
  named : ∀ boundary ∈ layout.wrapBoundaries,
    ∃ glyph ∈ layout.unwrappedLayout.glyphs, glyph.boundary = boundary
  origin : ∀ first, layout.unwrappedLayout.glyphs.head? = some first → first.x = 0
  indices : ∀ glyph ∈ layout.unwrappedLayout.glyphs, glyph.index ≤ layout.len

theorem Regular.laid (h : layout.Regular) : layout.Laid where
  ordered := h.ordered
  boundaries := h.boundaries
  named := h.named
  origin := h.origin
  indices := fun glyph hglyph => (h.inside glyph hglyph).2

/-- A visual line ends at the index: the glyph of a boundary has it, or it is the end of the
    text. -/
def EndsLine (layout : WrappedLineLayout X) (index : Nat) : Prop :=
  (∃ glyph ∈ layout.unwrappedLayout.glyphs,
      glyph.boundary ∈ layout.wrapBoundaries ∧ glyph.index = index) ∨
    (index = layout.len ∧ ∀ glyph ∈ layout.unwrappedLayout.glyphs, glyph.index ≠ index)

/-- The glyphs of the boundaries. -/
structure Ends (layout : WrappedLineLayout X) (ends : List (LineLayout.GlyphAt X)) : Prop where
  boundaries : ends.map LineLayout.GlyphAt.boundary = layout.wrapBoundaries
  mem : ∀ glyph ∈ ends, glyph ∈ layout.unwrappedLayout.glyphs
  sorted : ends.Pairwise (fun a b => a.index < b.index)

theorem Laid.exists_ends (h : layout.Laid) : ∃ ends, layout.Ends ends := by
  have hnamed := h.named
  have hlift : ∀ boundaries : List WrapBoundary, (∀ boundary ∈ boundaries,
      ∃ glyph ∈ layout.unwrappedLayout.glyphs, glyph.boundary = boundary) →
      ∃ ends : List (LineLayout.GlyphAt X),
        ends.map LineLayout.GlyphAt.boundary = boundaries ∧
        ∀ glyph ∈ ends, glyph ∈ layout.unwrappedLayout.glyphs := by
    intro boundaries hall
    induction boundaries with
    | nil => exact ⟨[], rfl, fun _ hmem => absurd hmem not_mem_nil⟩
    | cons boundary rest ih =>
      obtain ⟨glyph, hglyph, rfl⟩ := hall boundary mem_cons_self
      obtain ⟨ends, rfl, hends⟩ := ih (fun b hb => hall b (mem_cons_of_mem _ hb))
      refine ⟨glyph :: ends, rfl, ?_⟩
      intro other hother
      obtain rfl | hother := mem_cons.1 hother
      · exact hglyph
      · exact hends other hother
  obtain ⟨ends, hmap, hends⟩ := hlift layout.wrapBoundaries hnamed
  refine ⟨ends, hmap, hends, ?_⟩
  have hboundaries := h.boundaries
  rw [← hmap] at hboundaries
  refine (pairwise_map.1 hboundaries).imp_of_mem ?_
  intro a b ha hb hlt
  exact pairwise_rel (layout.unwrappedLayout.glyphs_sorted) h.ordered.indices
    (fun _ _ => WrapBoundary.lt_asymm) (hends a ha) (hends b hb) hlt

omit [LinearOrder X] in
/-- The loop stops at the first line that reaches to the index. -/
theorem positionFrom_eq {ends : List (LineLayout.GlyphAt X)}
    (hends : ∀ glyph ∈ ends, glyph ∈ layout.unwrappedLayout.glyphs) {index : Nat}
    (hlen : index ≤ layout.len) (lineHeight : X) (ix lineStartIx : Nat)
    (hstart : lineStartIx ≤ index) :
    ∃ above below, ends = above ++ below ∧
      layout.positionFrom index lineHeight ix lineStartIx
          (ends.map LineLayout.GlyphAt.boundary)
        = .ok (some ⟨layout.unwrappedLayout.xForIndex index -
            layout.unwrappedLayout.xForIndex
              ((above.getLast?.map LineLayout.GlyphAt.index).getD lineStartIx),
            ((ix + above.length : Nat) : X) * lineHeight⟩) ∧
      (∀ glyph ∈ above, glyph.index < index) ∧
      ∀ glyph, below.head? = some glyph → index ≤ glyph.index := by
  -- induction on the lines that are left
  induction ends generalizing ix lineStartIx with
  | nil =>
    refine ⟨[], [], rfl, ?_, fun _ hmem => absurd hmem not_mem_nil,
      fun _ hhead => absurd hhead (by simp)⟩
    simp [positionFrom, positionInLine, Nat.not_lt.2 hstart, Nat.not_lt.2 hlen]
  | cons glyph rest ih =>
    obtain ⟨shaped, hshaped, hindex, _⟩ :=
      LineLayout.glyphAt_of_mem (hends glyph mem_cons_self)
    rw [map_cons, positionFrom, hshaped]
    simp only [Exec.ok_bind, hindex]
    by_cases hle : index ≤ glyph.index
    · refine ⟨[], glyph :: rest, rfl, ?_, fun _ hmem => absurd hmem not_mem_nil, ?_⟩
      · simp [positionInLine, Nat.not_lt.2 hstart, Nat.not_lt.2 hle]
      · intro other hother
        cases hother
        exact hle
    · -- the next line starts where this one ends
      have hlt := Nat.not_le.1 hle
      obtain ⟨above, below, hsplit, hposition, habove, hbelow⟩ :=
        ih (fun other hother => hends other (mem_cons_of_mem _ hother)) (ix + 1)
          glyph.index hlt.le
      refine ⟨glyph :: above, below, by rw [hsplit]; rfl, ?_, ?_, hbelow⟩
      · have hline : layout.positionInLine index lineHeight ix lineStartIx glyph.index
            = .ok glyph.index := by
          simp [positionInLine, Nat.not_lt.2 hstart, hlt]
        simp only [hline]
        rw [hposition, length_cons, getLast?_cons]
        have hix : ix + 1 + above.length = ix + (above.length + 1) := by omega
        rw [hix]
        cases above.getLast? with
        | none => rfl
        | some last => rfl
      · intro other hother
        obtain rfl | hother := mem_cons.1 hother
        · exact hlt
        · exact habove other hother

/-! ### Section 3: From a point to an index -/

variable {above below : List (LineLayout.GlyphAt X)}

section

variable (hrows : layout.wrapBoundaries = (above ++ below).map LineLayout.GlyphAt.boundary)
  (hglyphs : ∀ glyph ∈ above ++ below, glyph ∈ layout.unwrappedLayout.glyphs)
include hrows hglyphs

omit [LinearOrder X] in
theorem wrappedLineStart_eq :
    layout.wrappedLineStart above.length
      = .ok (some ((above.getLast?.map (fun g => (g.index, g.x))).getD (0, 0))) := by
  unfold wrappedLineStart
  cases hlast : above.getLast? with
  | none =>
    rw [getLast?_eq_none_iff.1 hlast]
    rfl
  | some glyph =>
    have hpos : 0 < above.length :=
      length_pos_iff.2 (fun h => by rw [h] at hlast; cases hlast)
    have hprev : layout.wrapBoundaries[above.length - 1]? = some glyph.boundary := by
      rw [hrows, map_append, getElem?_append_left (by simp; omega), getElem?_map,
        ← getLast?_eq_getElem?, hlast]
      rfl
    have hmem := mem_append_left below (mem_of_getLast? hlast)
    obtain ⟨shaped, hshaped, hindex, hx⟩ := LineLayout.glyphAt_of_mem (hglyphs glyph hmem)
    simp only [if_pos hpos, hprev, hshaped, Exec.ok_bind, hindex, hx, Option.map_some,
      Option.getD_some]

omit [Field X] [LinearOrder X] in
theorem wrappedLineEnd_eq :
    layout.wrappedLineEnd above.length
      = .ok ((below.head?.map (fun g => (g.index, g.x))).getD
          (layout.unwrappedLayout.len, layout.unwrappedLayout.width)) := by
  unfold wrappedLineEnd
  have hnext : layout.wrapBoundaries[above.length]?
      = below.head?.map LineLayout.GlyphAt.boundary := by
    rw [hrows, map_append, getElem?_append_right (by simp), length_map,
      Nat.sub_self, ← head?_eq_getElem?, head?_map]
  rw [hnext]
  cases hhead : below.head? with
  | none => rfl
  | some glyph =>
    have hmem := mem_append_right above (mem_of_head? hhead)
    obtain ⟨shaped, hshaped, hindex, hx⟩ := LineLayout.glyphAt_of_mem (hglyphs glyph hmem)
    simp only [hshaped, Exec.ok_bind, hindex, hx, Option.map_some, Option.getD_some]

end

/-- What a visual line with this start and this end finds at a position of the unwrapped
    line. -/
def indexInRow (layout : WrappedLineLayout X) (start stop : Nat × X) (x : X) : Except Nat Nat :=
  if x < start.2 then .error start.1
  else if stop.2 ≤ x then .error stop.1
  else
    match layout.unwrappedLayout.indexForX x with
    | some index => .ok index
    | none       => .error stop.1

variable {start stop : Nat × X} {glyph : LineLayout.GlyphAt X}

/-- Looking a point up in the visual line between two boundaries. -/
theorem indexForPosition_row [FloorSemiring X]
    (hrows : layout.wrapBoundaries = (above ++ below).map LineLayout.GlyphAt.boundary)
    (hglyphs : ∀ glyph ∈ above ++ below, glyph ∈ layout.unwrappedLayout.glyphs)
    {position : Point X} {lineHeight : X} (hrow : ⌊position.y / lineHeight⌋₊ = above.length)
    (hstart : (above.getLast?.map (fun g => (g.index, g.x))).getD (0, 0) = start)
    (hend : (below.head?.map (fun g => (g.index, g.x))).getD
      (layout.unwrappedLayout.len, layout.unwrappedLayout.width) = stop) :
    layout.indexForPosition position lineHeight
      = .ok (layout.indexInRow start stop (position.x + start.2)) := by
  unfold indexForPosition indexForPosition'
  dsimp only
  rw [hrow, wrappedLineStart_eq hrows hglyphs, wrappedLineEnd_eq hrows hglyphs, hstart, hend]
  rfl

/-! ### Section 4: The round trip -/

/-- Where the visual line of an index starts. -/
theorem Laid.row_start (h : layout.Laid)
    (hempty : layout.unwrappedLayout.glyphs = [] → layout.unwrappedLayout.width = 0)
    (hglyphs : ∀ glyph ∈ above, glyph ∈ layout.unwrappedLayout.glyphs) {index startIndex : Nat}
    {startX : X} (habove : ∀ glyph ∈ above, glyph.index < index)
    (hstart : (above.getLast?.map (fun g => (g.index, g.x))).getD (0, 0)
      = (startIndex, startX)) :
    layout.unwrappedLayout.xForIndex
        ((above.getLast?.map LineLayout.GlyphAt.index).getD 0) = startX ∧
      ∀ glyph ∈ layout.unwrappedLayout.glyphs, index ≤ glyph.index → startX ≤ glyph.x := by
  cases hlast : above.getLast? with
  | none =>
    -- the first line starts with the first glyph
    rw [hlast] at hstart
    cases hstart
    cases hcases : layout.unwrappedLayout.glyphs with
    | nil =>
      refine ⟨?_, fun _ hmem => absurd hmem not_mem_nil⟩
      show LineLayout.xForIndexFrom _ _ _ = 0
      rw [hcases]
      exact hempty hcases
    | cons first rest =>
      have hx0 : first.x = 0 := h.origin first (by rw [hcases]; rfl)
      have hpositions := h.ordered.positions
      rw [hcases] at hpositions
      refine ⟨?_, ?_⟩
      · show LineLayout.xForIndexFrom _ 0 _ = 0
        rw [hcases, LineLayout.xForIndexFrom, if_pos (Nat.zero_le _), hx0]
      · intro glyph hmem _
        obtain rfl | hmem := mem_cons.1 hmem
        · exact hx0.ge
        · rw [← hx0]
          exact (rel_of_pairwise_cons hpositions hmem).le
  | some last =>
    rw [hlast] at hstart
    cases hstart
    have hmem := mem_of_getLast? hlast
    refine ⟨LineLayout.xForIndexFrom_glyph h.ordered.indices (hglyphs last hmem), ?_⟩
    intro glyph hglyph hle
    have hlt := Nat.lt_of_lt_of_le (habove last hmem) hle
    exact ((h.ordered.x_lt_iff (hglyphs last hmem) hglyph).2 hlt).le

/-- The start of a visual line is not right of the line. -/
theorem Regular.row_start_le_width (h : layout.Regular)
    (hglyphs : ∀ glyph ∈ above, glyph ∈ layout.unwrappedLayout.glyphs) {startIndex : Nat}
    {startX : X} (hstart : (above.getLast?.map (fun g => (g.index, g.x))).getD (0, 0)
      = (startIndex, startX)) : startX ≤ layout.unwrappedLayout.width := by
  cases hlast : above.getLast? with
  | none =>
    rw [hlast] at hstart
    cases hstart
    cases hcases : layout.unwrappedLayout.glyphs with
    | nil => exact (h.empty hcases).2.ge
    | cons first rest =>
      have hx0 : first.x = 0 := h.origin first (by rw [hcases]; rfl)
      rw [← hx0]
      exact (h.inside first (by rw [hcases]; exact mem_cons_self)).1.le
  | some last =>
    rw [hlast] at hstart
    cases hstart
    exact (h.inside last (hglyphs last (mem_of_getLast? hlast))).1.le

section

omit [Field X] [LinearOrder X]

/-- A visual line ends at a glyph if it is one of a boundary. -/
theorem endsLine_glyph_iff {ends : List (LineLayout.GlyphAt X)} (hends : layout.Ends ends)
    (hglyph : glyph ∈ layout.unwrappedLayout.glyphs) :
    layout.EndsLine glyph.index ↔ ∃ boundary ∈ ends, boundary.index = glyph.index := by
  constructor
  · intro hcase
    match hcase with
    | .inl ⟨other, hother, hboundary, heq⟩ =>
      rw [← hends.boundaries] at hboundary
      obtain ⟨boundary, hboundary, hsame⟩ := mem_map.1 hboundary
      have := LineLayout.glyphs_boundary_inj (hends.mem boundary hboundary) hother hsame
      exact ⟨boundary, hboundary, by rw [this, heq]⟩
    | .inr ⟨_, hnone⟩ => exact absurd rfl (hnone glyph hglyph)
  · intro hboundary
    obtain ⟨boundary, hboundary, heq⟩ := hboundary
    refine .inl ⟨boundary, hends.mem boundary hboundary, ?_, heq⟩
    rw [← hends.boundaries]
    exact mem_map_of_mem hboundary

/-- The glyphs of a visual line lie before the next boundary, and it ends at that one. -/
theorem endsLine_iff_next
    (hends : layout.Ends (above ++ below)) (hglyph : glyph ∈ layout.unwrappedLayout.glyphs)
    (habove : ∀ boundary ∈ above, boundary.index < glyph.index)
    (hbelow : ∀ boundary, below.head? = some boundary → glyph.index ≤ boundary.index) :
    layout.EndsLine glyph.index ↔
      ∃ boundary, below.head? = some boundary ∧ boundary.index = glyph.index := by
  rw [endsLine_glyph_iff hends hglyph]
  constructor
  · intro ⟨other, hother, heq⟩
    rcases mem_append.1 hother with hother | hother
    · exact absurd heq (Nat.ne_of_lt (habove other hother))
    · cases below with
      | nil => exact absurd hother not_mem_nil
      | cons boundary rest =>
        -- the boundaries behind the next one are too far
        have hle := hbelow boundary rfl
        rcases mem_cons.1 hother with rfl | hother
        · exact ⟨other, rfl, heq⟩
        · have := rel_of_pairwise_cons (pairwise_append.1 hends.sorted).2.1 hother
          omega
  · intro ⟨boundary, hhead, heq⟩
    exact ⟨boundary, mem_append_right _ (mem_of_head? hhead), heq⟩

end

/-- A glyph before the end of its visual line is found. -/
theorem Regular.indexInRow_of_lt (h : layout.Regular)
    (hglyph : glyph ∈ layout.unwrappedLayout.glyphs)
    (hright : start.2 ≤ glyph.x) (hlt : glyph.x < stop.2) :
    layout.indexInRow start stop glyph.x = .ok glyph.index := by
  unfold indexInRow
  rw [if_neg (not_lt.2 hright), if_neg (not_le.2 hlt),
    h.ordered.indexForX_glyph hglyph (h.inside glyph hglyph).1]

omit [Field X] in
theorem indexInRow_of_le {x : X} (hright : start.2 ≤ x)
    (hle : stop.2 ≤ x) : layout.indexInRow start stop x = .error stop.1 := by
  unfold indexInRow
  rw [if_neg (not_lt.2 hright), if_pos hle]

/-- The start of a glyph is an error if its visual line ends there. -/
theorem Regular.indexInRow_glyph (h : layout.Regular)
    (hends : layout.Ends (above ++ below)) (hglyph : glyph ∈ layout.unwrappedLayout.glyphs)
    (habove : ∀ boundary ∈ above, boundary.index < glyph.index)
    (hbelow : ∀ boundary, below.head? = some boundary → glyph.index ≤ boundary.index)
    (hright : start.2 ≤ glyph.x) (hend : (below.head?.map (fun g => (g.index, g.x))).getD
      (layout.unwrappedLayout.len, layout.unwrappedLayout.width) = stop) :
    (layout.EndsLine glyph.index →
        layout.indexInRow start stop glyph.x = .error glyph.index) ∧
      (¬ layout.EndsLine glyph.index →
        layout.indexInRow start stop glyph.x = .ok glyph.index) := by
  rw [endsLine_iff_next hends hglyph habove hbelow]
  cases hhead : below.head? with
  | none =>
    -- it is in the last line, behind all boundaries
    rw [hhead] at hend
    cases hend
    refine ⟨fun ⟨_, hnone, _⟩ => absurd hnone.symm (Option.some_ne_none _), fun _ => ?_⟩
    exact h.indexInRow_of_lt hglyph hright (h.inside glyph hglyph).1
  | some boundary =>
    rw [hhead] at hend
    cases hend
    have hboundary := hends.mem boundary (mem_append_right _ (mem_of_head? hhead))
    rcases (hbelow boundary hhead).eq_or_lt with heq | hlt
    · -- the line ends here
      have hle : boundary.x ≤ glyph.x := by
        refine not_lt.1 ?_
        intro hx
        exact absurd ((h.ordered.x_lt_iff hglyph hboundary).1 hx) (by omega)
      refine ⟨fun _ => ?_, fun hnot => absurd ⟨boundary, rfl, heq.symm⟩ hnot⟩
      rw [heq]
      exact indexInRow_of_le hright hle
    · have hx := (h.ordered.x_lt_iff hglyph hboundary).2 hlt
      refine ⟨?_, fun _ => h.indexInRow_of_lt hglyph hright hx⟩
      intro ⟨other, hother, heq⟩
      cases hother
      omega

/-- The point of an index leads back to it: as an error at the end of a visual line, and as
    `ok` inside one. -/
theorem indexForPosition_positionForIndex [IsStrictOrderedRing X] [FloorSemiring X]
    (h : layout.Regular) {lineHeight : X} (hpos : 0 < lineHeight) {index : Nat}
    (hindex : (∃ glyph ∈ layout.unwrappedLayout.glyphs, glyph.index = index) ∨
      index = layout.len) :
    ∃ position, layout.positionForIndex index lineHeight = .ok (some position) ∧
      (layout.EndsLine index →
        layout.indexForPosition position lineHeight = .ok (.error index)) ∧
      (¬ layout.EndsLine index →
        layout.indexForPosition position lineHeight = .ok (.ok index)) := by
  have hlen : index ≤ layout.len := by
    match hindex with
    | .inl ⟨glyph, hmem, heq⟩ =>
      rw [← heq]
      exact (h.inside glyph hmem).2
    | .inr heq => exact heq.le
  obtain ⟨ends, hends⟩ := h.laid.exists_ends
  obtain ⟨above, below, rfl, hposition, habove, hbelow⟩ :=
    positionFrom_eq hends.mem hlen lineHeight 0 0 (Nat.zero_le _)
  rw [hends.boundaries, Nat.zero_add] at hposition
  obtain ⟨⟨startIndex, startX⟩, hstart⟩ :
      ∃ start, (above.getLast?.map (fun g => (g.index, g.x))).getD (0, 0) = start := ⟨_, rfl⟩
  obtain ⟨stop, hend⟩ : ∃ stop, (below.head?.map (fun g => (g.index, g.x))).getD
      (layout.unwrappedLayout.len, layout.unwrappedLayout.width) = stop := ⟨_, rfl⟩
  have hmemAbove : ∀ glyph ∈ above, glyph ∈ layout.unwrappedLayout.glyphs :=
    fun glyph hg => hends.mem glyph (mem_append_left _ hg)
  obtain ⟨hstartX, hright⟩ :=
    h.laid.row_start (fun hnil => (h.empty hnil).2) hmemAbove habove hstart
  rw [hstartX] at hposition
  refine ⟨_, hposition, ?_⟩
  -- the point lies in the line that was found
  have hrow : ⌊(above.length : X) * lineHeight / lineHeight⌋₊ = above.length := by
    rw [mul_div_assoc, div_self hpos.ne', mul_one, Nat.floor_natCast]
  rw [indexForPosition_row hends.boundaries.symm hends.mem hrow hstart hend]
  dsimp only
  rw [sub_add_cancel]
  simp only [Except.ok.injEq]
  by_cases hglyph : ∃ glyph ∈ layout.unwrappedLayout.glyphs, glyph.index = index
  · -- the start of a glyph
    obtain ⟨glyph, hg, rfl⟩ := hglyph
    have hx : layout.unwrappedLayout.xForIndex glyph.index = glyph.x :=
      LineLayout.xForIndexFrom_glyph h.ordered.indices hg
    rw [hx]
    exact h.indexInRow_glyph hends hg habove hbelow
      (hright glyph hg (Nat.le_refl _)) hend
  · -- the end of the text
    have hat : index = layout.len := hindex.resolve_left hglyph
    have hbefore : ∀ glyph ∈ layout.unwrappedLayout.glyphs, glyph.index < index := by
      intro glyph hg
      have hle := (h.inside glyph hg).2
      have hne : glyph.index ≠ index := fun heq => hglyph ⟨glyph, hg, heq⟩
      omega
    have hx : layout.unwrappedLayout.xForIndex index = layout.unwrappedLayout.width :=
      LineLayout.xForIndexFrom_of_lt hbefore
    have hline : layout.EndsLine index :=
      .inr ⟨hat, fun glyph hg heq => hglyph ⟨glyph, hg, heq⟩⟩
    -- no boundary is as far as that, so it is in the last line
    have hlast : below.head? = none := by
      cases hhead : below.head? with
      | none => rfl
      | some boundary =>
        have hboundary := hends.mem boundary (mem_append_right _ (mem_of_head? hhead))
        exact absurd (hbefore boundary hboundary) (Nat.not_lt.2 (hbelow boundary hhead))
    rw [hlast] at hend
    cases hend
    refine ⟨fun _ => ?_, fun hnot => absurd hline hnot⟩
    rw [hx, indexInRow_of_le (h.row_start_le_width hmemAbove hstart) le_rfl, hat]
    rfl

/-- A line that is wrapped before its second glyph. -/
def twoRows : WrappedLineLayout ℚ where
  unwrappedLayout := LineLayout.twoGlyphs
  wrapBoundaries := [⟨0, 1⟩]
  wrapWidth := some 10

theorem twoRows_regular : twoRows.Regular where
  ordered := LineLayout.twoGlyphs_ordered
  boundaries := pairwise_singleton _ _
  named := by decide +kernel
  origin := by
    intro first hfirst
    cases hfirst
    rfl
  inside := by decide +kernel
  empty := fun hnil => absurd hnil (by decide +kernel)

theorem indexForPosition_positionForIndex_twoGlyphs :
    ∃ position, twoRows.positionForIndex 1 18 = .ok (some position) ∧
      (twoRows.EndsLine 1 → twoRows.indexForPosition position 18 = .ok (.error 1)) ∧
      (¬ twoRows.EndsLine 1 → twoRows.indexForPosition position 18 = .ok (.ok 1)) :=
  indexForPosition_positionForIndex twoRows_regular (by decide +kernel)
    (.inl ⟨⟨⟨0, 1⟩, 1, 10⟩, .tail _ (.head _), rfl⟩)

/-- A glyph and a blank that is not counted in the width. -/
def trailingBlank : WrappedLineLayout ℚ where
  unwrappedLayout := { LineLayout.twoGlyphs with width := 10 }
  wrapBoundaries := []
  wrapWidth := none

/-- The point of a glyph that lies at the width is the end of the line. -/
theorem indexForPosition_beyond_width : ¬ ∀ layout : WrappedLineLayout ℚ,
    layout.unwrappedLayout.Ordered → layout.wrapBoundaries.Pairwise (fun a b => a.lt b = true) →
    (∀ boundary ∈ layout.wrapBoundaries,
      ∃ glyph ∈ layout.unwrappedLayout.glyphs, glyph.boundary = boundary) →
    ∀ lineHeight, 0 < lineHeight → ∀ index,
      (∃ glyph ∈ layout.unwrappedLayout.glyphs, glyph.index = index) ∨ index = layout.len →
      ∃ position, layout.positionForIndex index lineHeight = .ok (some position) ∧
        (layout.indexForPosition position lineHeight = .ok (.ok index) ∨
          layout.indexForPosition position lineHeight = .ok (.error index)) := by
  intro h
  have hordered : trailingBlank.unwrappedLayout.Ordered :=
    ⟨LineLayout.twoGlyphs_ordered.positions, LineLayout.twoGlyphs_ordered.indices⟩
  obtain ⟨position, hposition, hback⟩ := h trailingBlank hordered List.Pairwise.nil
    (fun _ hmem => absurd hmem not_mem_nil) 18 (by decide +kernel) 1
    (.inl ⟨⟨⟨0, 1⟩, 1, 10⟩, .tail _ (.head _), rfl⟩)
  have hpoint : trailingBlank.positionForIndex 1 18 = .ok (some ⟨10, 0⟩) := by decide +kernel
  have hresult : trailingBlank.indexForPosition ⟨10, 0⟩ 18 = .ok (.error 2) := by decide +kernel
  rw [hpoint] at hposition
  cases hposition
  rw [hresult] at hback
  cases hback with
  | inl hok => cases hok
  | inr herror => cases herror

end WrappedLineLayout

end Gpui
