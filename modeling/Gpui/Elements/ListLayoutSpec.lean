import Gpui.Elements.ListLayout
import Gpui.Elements.ListScrollSpec
import Gpui.SumTree.ListSpec

/-! # The layout of a list fills the viewport

    The loops of `layout_items` measure the items of a range that grows at both ends, with
    one cursor, so that the range can be put back where it was.  In the end the viewport
    is full, or the list is at its end, or all of the list is visible. -/

namespace Gpui

open List

open Exec (Returns Ensures Next loop Counts ok_bind returns_ok loop_counts)

variable {X F E : Type} [Field X]

/-! ## Section 1: The cursor at an item -/

section Places

variable {items : SumTree (ListItem X F) (ListItemSummary X)}
  {c : Cursor (ListItem X F) (ListItemSummary X) Count} {i : Nat}

/-- The cursor stands behind the first `i` items, or before all of them. -/
def StandsAt (items : SumTree (ListItem X F) (ListItemSummary X)) (i : Nat)
    (c : Cursor (ListItem X F) (ListItemSummary X) Count) : Prop :=
  i ≤ items.toList.length ∧
    (Simulates items (.behind i) c ∨ (i = 0 ∧ Simulates items .start c))

theorem StandsAt.start_value (h : StandsAt items i c) (wf : items.WellFormed) :
    c.start.value = i := by
  obtain ⟨hle, hbehind | ⟨rfl, hstart⟩⟩ := h
  · have hposition := (hbehind.shows wf (by simp)).start
    rw [measure_count] at hposition
    rw [hposition, Place.before, length_take, Nat.min_eq_left hle]
  · have hposition := (hstart.shows wf (by simp)).start
    rw [hposition]
    rfl

/-- A count is sought from anywhere. -/
theorem seek_stands (wf : items.WellFormed) (hheight : items.height ≤ 15) {p : Place}
    (sim : Simulates items p c) {count : Nat} (hcount : count ≤ items.toList.length) :
    ∃ c' found, c.seek (Count.target count) .right = .ok (c', found) ∧
      Simulates items (.behind count) c' := by
  obtain ⟨c', found, i, hseek, ⟨hle, hpassed, hnext⟩, sim'⟩ :=
    sim.seek wf hheight .right
      (show Count.target count (Dimension.zero (ListItemSummary X)) ≠ .lt by
        simp [Count.target, cmp_eq_lt_iff, Dimension.zero])
  have hreached : ∀ k, k ≤ items.toList.length →
      reached (Count.target count) .right (measure Count (items.toList.take k)) =
        decide (k ≤ count) := by
    intro k hk
    show reached (fun position : Count => cmp count position.value) .right _ = _
    rw [reached_cmp_right, measure_count, length_take, Nat.min_eq_left hk]
  have hi : i = count := by
    apply Nat.le_antisymm
    · rcases Nat.eq_zero_or_pos i with hzero | hpos
      · omega
      · have hin := hpassed hpos
        rw [hreached i hle] at hin
        simpa using hin
    · by_contra hlt
      have hout := hnext (by omega)
      rw [hreached (i + 1) (by omega)] at hout
      simp only [decide_eq_false_iff_not] at hout
      omega
  exact ⟨c', found, hseek, hi ▸ sim'⟩

/-- Going back, the cursor comes to the item before, or stays before all items. -/
theorem prev_stands (wf : items.WellFormed) (hheight : items.height ≤ 15) (h : StandsAt items i c) :
    ∃ c', c.prev = .ok c' ∧ StandsAt items (i - 1) c' ∧
      c'.item = .ok (if i = 0 then none else items.toList[i - 1]?) := by
  obtain ⟨hle, hbehind | ⟨rfl, hstart⟩⟩ := h
  · obtain ⟨c', hprev, sim'⟩ := hbehind.prev wf hheight
    cases i with
    | zero =>
      have hitem := (sim'.shows wf (by simp [Place.prev])).item
      exact ⟨c', hprev, ⟨hle, Or.inr ⟨rfl, sim'⟩⟩, hitem⟩
    | succ j =>
      have hitem := (sim'.shows wf (by simp [Place.prev])).item
      exact ⟨c', hprev, ⟨by omega, Or.inl sim'⟩, hitem⟩
  · obtain ⟨c', hprev, sim'⟩ := hstart.prev wf hheight
    have hitem := (sim'.shows wf (by simp [Place.prev])).item
    exact ⟨c', hprev, ⟨hle, Or.inr ⟨rfl, sim'⟩⟩, hitem⟩

end Places

/-! ## Section 2: A range of measured items -/

section Ranges

variable (measure : Nat → Size X)

/-- The height of the first `k` items when all are rendered. -/
def trueTop (k : Nat) : X :=
  ((List.range k).map (fun i => (measure i).height)).sum

theorem trueTop_succ (k : Nat) : trueTop measure (k + 1) = trueTop measure k +
    (measure k).height := by
  unfold trueTop
  rw [List.range_succ, List.map_append, List.sum_append]
  simp

/-- All items, each with the size that it is rendered with. -/
def measureItems (items : List (ListItem X F)) : List (ListItem X F) :=
  items.mapIdx (fun i item => .measured (measure i) item.focusHandle)

/-- Sizes that are known are those that the items are rendered with. -/
def Agrees (items : List (ListItem X F)) : Prop :=
  ∀ (i : Nat) item size, items[i]? = some item → item.size = some size → size = measure i

/-- The items from `first` on, and before `last`. -/
def between {T : Type} (xs : List T) (first last : Nat) : List T :=
  (xs.take last).drop first

variable {measure} {items : List (ListItem X F)} {first last : Nat} {item : ListItem X F}
  {T : Type}

theorem between_self (xs : List T) (first : Nat) : between xs first first = [] := by
  unfold between
  rw [drop_eq_nil_of_le]
  exact length_take_le _ _

omit [Field X] in
theorem measureItems_getElem? {i : Nat} (hitem : items[i]? = some item) :
    (measureItems measure items)[i]? = some (.measured (measure i) item.focusHandle) := by
  unfold measureItems
  rw [getElem?_mapIdx, hitem]
  rfl

variable {xs : List T} {x : T} {measuredItems : List (ListItem X F)}

theorem between_push (hx : xs[last]? = some x) (hle : first ≤ last) :
    between xs first last ++ [x] = between xs first (last + 1) := by
  obtain ⟨hlt, rfl⟩ := List.getElem?_eq_some_iff.mp hx
  unfold between
  rw [take_succ_eq_append_getElem hlt, drop_append_of_le_length]
  rw [length_take]
  omega

theorem between_cons (hx : xs[first]? = some x) (hlt : first < last) :
    x :: between xs (first + 1) last = between xs first last := by
  obtain ⟨hfirst, rfl⟩ := List.getElem?_eq_some_iff.mp hx
  unfold between
  have hlen : first < (xs.take last).length := by
    rw [length_take]
    omega
  rw [drop_eq_getElem_cons hlen, getElem_take]

variable (measure items) in
/-- The items from `first` on, and before `last`, are measured. -/
structure MeasuredRange (first last : Nat) (measuredItems : List (ListItem X F)) : Prop where
  first_le : first ≤ last
  last_le : last ≤ items.length
  measured : measuredItems = between (measureItems measure items) first last

omit [Field X] in
/-- One item more at the end of the range. -/
theorem MeasuredRange.push (h : MeasuredRange measure items first last measuredItems)
    (hitem : items[last]? = some item) :
    MeasuredRange measure items first (last + 1)
      (measuredItems ++ [.measured (measure last) item.focusHandle]) where
  first_le := Nat.le_succ_of_le h.first_le
  last_le := (List.getElem?_eq_some_iff.mp hitem).1
  measured := by rw [h.measured, between_push (measureItems_getElem? hitem) h.first_le]

omit [Field X] in
/-- One item more at its start. -/
theorem MeasuredRange.cons (h : MeasuredRange measure items (first + 1) last measuredItems)
    (hitem : items[first]? = some item) :
    MeasuredRange measure items first last
      (.measured (measure first) item.focusHandle :: measuredItems) where
  first_le := Nat.le_of_succ_le h.first_le
  last_le := h.last_le
  measured := by rw [h.measured, between_cons (measureItems_getElem? hitem) h.first_le]

variable (measure items) in
/-- The layout has measured a range, and with `pads` that is its height. -/
structure Measures (pads : X) (first last : Nat) (layout : ItemsLayout X F E) : Prop where
  range : MeasuredRange measure items first last layout.measuredItems
  height : layout.renderedHeight = pads + (trueTop measure last - trueTop measure first)

end Ranges

/-! ## Section 3: From the scroll position on -/

namespace ListTree

variable [LinearOrder X] {renderer : ItemRenderer X F E}
  {availableWidth : Option X} {availableHeight : X} {list : ListTree X F}
  {scrollTop : ListOffset X} {padding : Edges X}

/-- The loop stands at the item `last`. -/
structure RenderingAt (renderer : ItemRenderer X F E) (availableWidth : Option X)
    (list : ListTree X F) (scrollTop : ListOffset X) (padding : Edges X) (last : Nat)
    (st : Rendering X F E) : Prop where
  list_eq : st.list = list
  scrollTop_eq : st.scrollTop = scrollTop
  ix : scrollTop.itemIx + st.ix = last
  stands : Simulates list.items (.behind last) st.cursor
  measures : Measures (renderer.measure availableWidth) list.items.toList padding.top
    scrollTop.itemIx last st.layout

/-- The loop ended before the item `last`: at the end of the items, or with enough of them. -/
structure RenderedTo (renderer : ItemRenderer X F E) (availableWidth : Option X)
    (availableHeight : X) (list : ListTree X F) (scrollTop : ListOffset X) (padding : Edges X)
    (last : Nat) (st : Rendering X F E) : Prop where
  list_eq : st.list = list
  scrollTop_eq : st.scrollTop = scrollTop
  stands : ∃ p, Simulates list.items p st.cursor
  measures : Measures (renderer.measure availableWidth) list.items.toList padding.top
    scrollTop.itemIx last st.layout
  enough : last = list.items.toList.length ∨
    availableHeight + list.overdraw ≤ st.layout.renderedHeight - scrollTop.offsetInItem

variable (renderer availableWidth) in
/-- Rendering an item gives its size, and changes nothing but the layouts. -/
theorem renderItem_spec (st : Rendering X F E) (hpending : st.list.pendingScroll = none)
    (visible : Bool) (item : ListItem X F) :
    ∃ layout, renderItem renderer availableWidth visible item st =
        ({ st with layout := layout },
          some (renderer.measure availableWidth (st.scrollTop.itemIx + st.ix))) ∧
      layout.measuredItems = st.layout.measuredItems ∧
      layout.renderedHeight = st.layout.renderedHeight := by
  have hpair : (if st.ix = 0 then applyPendingScroll st.list st.scrollTop
      (renderer.measure availableWidth (st.scrollTop.itemIx + st.ix))
      else (st.list, st.scrollTop)) = (st.list, st.scrollTop) := by
    split
    · unfold applyPendingScroll
      rw [hpending]
    · rfl
  unfold renderItem
  dsimp only
  rw [hpair]
  cases visible with
  | true => exact ⟨_, rfl, rfl, rfl⟩
  | false => exact ⟨_, rfl, rfl, rfl⟩

section

variable (wf : list.items.WellFormed) (hheight : list.items.height ≤ 15)
  (hpending : list.pendingScroll = none)
  (hagrees : Agrees (renderer.measure availableWidth) list.items.toList)
include wf hheight hpending hagrees

theorem renderStep_spec {last : Nat} {st : Rendering X F E}
    (h : RenderingAt renderer availableWidth list scrollTop padding last st) :
    Returns (Counts
        (fun k st => ∃ last, k + last = list.items.toList.length ∧
          RenderingAt renderer availableWidth list scrollTop padding last st)
        (list.items.toList.length - last)
        (fun st => ∃ last,
          RenderedTo renderer availableWidth availableHeight list scrollTop padding last st))
      (renderStep renderer availableWidth availableHeight st) := by
  obtain ⟨hlist, htop, hix, hstands, measures⟩ := h
  obtain ⟨cursor, hnext, hstands'⟩ := hstands.iterNext wf hheight measures.range.last_le
  unfold renderStep
  rw [hnext, ok_bind]
  cases hitem : list.items.toList[last]? with
  | none =>
    -- the end of the items
    have hend := getElem?_eq_none_iff.mp hitem
    exact returns_ok.mpr ⟨last, hlist, htop, ⟨_, hstands'⟩, measures,
      Or.inl (Nat.le_antisymm measures.range.last_le hend)⟩
  | some item =>
    dsimp only
    by_cases henough :
        availableHeight + st.list.overdraw ≤ st.layout.renderedHeight - st.scrollTop.offsetInItem
    · rw [if_pos henough]
      rw [hlist, htop] at henough
      exact returns_ok.mpr ⟨last, hlist, htop, ⟨_, hstands'⟩, measures, Or.inr henough⟩
    rw [if_neg henough]
    -- rendered now or before, the item has its size
    obtain ⟨layout, hsized, hmeasured, hrendered⟩ : ∃ layout,
        (if st.layout.renderedHeight - st.scrollTop.offsetInItem < availableHeight ∨
            item.size.isNone = true then
          renderItem renderer availableWidth
            (st.layout.renderedHeight - st.scrollTop.offsetInItem < availableHeight) item
            { st with cursor := cursor }
        else ({ st with cursor := cursor }, item.size)) =
          ({ st with cursor := cursor, layout := layout },
            some (renderer.measure availableWidth last)) ∧
        layout.measuredItems = st.layout.measuredItems ∧
        layout.renderedHeight = st.layout.renderedHeight := by
      split
      · obtain ⟨layout, hrender, hsame⟩ := renderItem_spec renderer availableWidth
          { st with cursor := cursor } (by rw [hlist]; exact hpending)
          (st.layout.renderedHeight - st.scrollTop.offsetInItem < availableHeight) item
        refine ⟨layout, ?_, hsame⟩
        rw [hrender]
        rw [htop, hix]
      · next hcached =>
        refine ⟨st.layout, ?_, rfl, rfl⟩
        cases hsize : item.size with
        | none => exact absurd (Or.inr (by rw [hsize]; rfl)) hcached
        | some size => rw [hagrees last item size hitem hsize]
    rw [hsized]
    have hlt := (List.getElem?_eq_some_iff.mp hitem).1
    refine returns_ok.mpr ⟨list.items.toList.length - (last + 1), by omega, last + 1,
      by omega, hlist, htop, ?_, ?_, ?_, ?_⟩
    · dsimp only
      omega
    · rwa [Nat.min_eq_left hlt] at hstands'
    · dsimp only
      rw [hmeasured]
      exact measures.range.push hitem
    · dsimp only
      rw [hrendered, measures.height, trueTop_succ]
      ring

variable (availableHeight padding) in
/-- **The first loop** measures the items from the scroll position on. -/
theorem renderItems_spec (hitemIx : scrollTop.itemIx ≤ list.items.toList.length) :
    Returns (fun st => ∃ last,
        RenderedTo renderer availableWidth availableHeight list scrollTop padding last st)
      (renderItems renderer availableWidth availableHeight list scrollTop padding) := by
  obtain ⟨c, found, hseek, hstands⟩ := seek_stands wf hheight (.fresh (D := Count)) hitemIx
  unfold renderItems
  dsimp only
  rw [hseek, ok_bind]
  refine (loop_counts (fun k st => ∃ last, k + last = list.items.toList.length ∧
      RenderingAt renderer availableWidth list scrollTop padding last st) ?_ _ _
    (list.items.toList.length - scrollTop.itemIx) ?_ ?_).returns
  · rintro k st ⟨last, hk, hat⟩
    obtain rfl : k = list.items.toList.length - last := by omega
    exact (renderStep_spec wf hheight hpending hagrees hat).ensures
  · refine ⟨scrollTop.itemIx, by omega, rfl, rfl, Nat.add_zero _, hstands, ⟨Nat.le_refl _, hitemIx,
      (between_self _ _).symm⟩, ?_⟩
    simp
  · have := SumTree.length_toList_lt list.items
    omega

end

/-! ## Section 4: From above -/

/-- The loop stands at the item `first`, the items from it on and before `last` are
    measured. -/
structure FillingAt (renderer : ItemRenderer X F E) (availableWidth : Option X)
    (items : SumTree (ListItem X F) (ListItemSummary X)) (pads : X) (first last : Nat)
    (st : Filling X F E) : Prop where
  stands : StandsAt items first st.cursor
  measures : Measures (renderer.measure availableWidth) items.toList pads first last st.layout

variable {items : SumTree (ListItem X F) (ListItemSummary X)} {pads : X} {first last : Nat}

variable (availableHeight) in
theorem fillStep_spec (wf : items.WellFormed) (hheight : items.height ≤ 15)
    {st : Filling X F E} (h : FillingAt renderer availableWidth items pads first last st) :
    Returns (Counts (fun first st => FillingAt renderer availableWidth items pads first last st)
        first (fun st => ∃ first, FillingAt renderer availableWidth items pads first last st ∧
          (availableHeight ≤ st.layout.renderedHeight ∨
            first = 0 ∧ st.layout.renderedHeight < availableHeight)))
      (fillStep renderer availableWidth availableHeight st) := by
  obtain ⟨hstands, measures⟩ := h
  unfold fillStep
  by_cases hfull : st.layout.renderedHeight < availableHeight
  · rw [if_pos hfull]
    obtain ⟨cursor, hprev, hstands', hitem⟩ := prev_stands wf hheight hstands
    rw [hprev, ok_bind, hitem, ok_bind]
    cases first with
    | zero =>
      -- no item is left
      exact returns_ok.mpr ⟨0, ⟨hstands', measures⟩, Or.inr ⟨rfl, hfull⟩⟩
    | succ first =>
      obtain ⟨item, hat⟩ : ∃ item, items.toList[first]? = some item := by
        have hle := hstands.1
        exact ⟨_, getElem?_eq_getElem (by omega)⟩
      have hvalue : cursor.start.value = first := hstands'.start_value wf
      rw [if_neg (Nat.succ_ne_zero first), Nat.add_sub_cancel, hat]
      dsimp only
      rw [hvalue]
      refine returns_ok.mpr ⟨first, Nat.lt_succ_self first, hstands', ?_, ?_⟩
      · exact measures.range.cons hat
      · dsimp only
        rw [measures.height, trueTop_succ]
        ring
  · rw [if_neg hfull]
    exact returns_ok.mpr ⟨first, ⟨hstands, measures⟩, Or.inl (not_lt.mp hfull)⟩

/-- The scroll position after the viewport was filled from above. -/
structure FilledTo (renderer : ItemRenderer X F E) (availableWidth : Option X)
    (availableHeight : X) (items : SumTree (ListItem X F) (ListItemSummary X)) (pads : X)
    (scrollTop : ListOffset X) (last : Nat) (st : Filling X F E) (scrollTop' : ListOffset X) :
    Prop where
  at_first : FillingAt renderer availableWidth items pads scrollTop'.itemIx last st
  position : trueTop (renderer.measure availableWidth) scrollTop'.itemIx + scrollTop'.offsetInItem
    = if pads + trueTop (renderer.measure availableWidth) last - availableHeight
        < trueTop (renderer.measure availableWidth) scrollTop.itemIx + scrollTop.offsetInItem
      then max 0 (pads + trueTop (renderer.measure availableWidth) last - availableHeight)
      else trueTop (renderer.measure availableWidth) scrollTop.itemIx + scrollTop.offsetInItem

variable (availableHeight) in
/-- **The second loop** takes items from above until the viewport is full. -/
theorem fillViewport_spec [IsStrictOrderedRing X] (wf : items.WellFormed)
    (hheight : items.height ≤ 15)
    (hnonneg : ∀ k ≤ items.toList.length, 0 ≤ trueTop (renderer.measure availableWidth) k)
    (htop : list.alignment = .top) {st : Filling X F E}
    (h : FillingAt renderer availableWidth items pads scrollTop.itemIx last st) :
    ∃ logicalScrollTop scrollTop' st',
      fillViewport renderer availableWidth availableHeight items list scrollTop st =
        .ok ({ list with logicalScrollTop := logicalScrollTop }, scrollTop', st') ∧
      FilledTo renderer availableWidth availableHeight items pads scrollTop last st' scrollTop' := by
  have hrendered := h.measures.height
  have hshort : st.layout.renderedHeight - scrollTop.offsetInItem < availableHeight ↔
      pads + trueTop (renderer.measure availableWidth) last - availableHeight
        < trueTop (renderer.measure availableWidth) scrollTop.itemIx + scrollTop.offsetInItem := by
    rw [hrendered]
    constructor
    · intro hlt
      linarith
    · intro hlt
      linarith
  unfold fillViewport
  by_cases hmove : st.layout.renderedHeight - scrollTop.offsetInItem < availableHeight
  · rw [if_pos hmove]
    obtain ⟨st', hloop, first, hfilled, hend⟩ := (loop_counts
      (fun first st => FillingAt renderer availableWidth items pads first last st)
      (fun _ _ hat => (fillStep_spec availableHeight wf hheight hat).ensures)
      items.size st scrollTop.itemIx h
      (lt_of_le_of_lt h.stands.1 (SumTree.length_toList_lt items))).returns
    rw [hloop, ok_bind, htop]
    have hvalue : st'.cursor.start.value = first := hfilled.stands.start_value wf
    refine ⟨_, _, st', rfl, ?_, ?_⟩
    · dsimp only
      rw [hvalue]
      exact hfilled
    · dsimp only
      rw [hvalue, if_pos (hshort.mp hmove), hfilled.measures.height]
      rcases hend with hfull | ⟨rfl, hspace⟩
      · -- the viewport is full
        rw [hfilled.measures.height] at hfull
        have hfirst := hnonneg first hfilled.stands.1
        rw [max_eq_left (by linarith), max_eq_right (by linarith)]
        ring
      · -- all of the items are visible
        rw [hfilled.measures.height] at hspace
        have hnone : trueTop (renderer.measure availableWidth) 0 = 0 := rfl
        rw [hnone] at hspace ⊢
        rw [max_eq_right (by linarith), max_eq_left (by linarith), add_zero]
  · rw [if_neg hmove]
    refine ⟨list.logicalScrollTop, scrollTop, st, rfl, h, ?_⟩
    rw [if_neg (fun hlt => hmove (hshort.mpr hlt))]

/-! ## Section 5: The leading overdraw -/

/-- The loop stands at the item `first`, and has measured those up to `last`. -/
structure LeadingAt (renderer : ItemRenderer X F E) (availableWidth : Option X)
    (items : SumTree (ListItem X F) (ListItemSummary X)) (first last : Nat) (st : Leading X F) :
    Prop where
  stands : StandsAt items first st.cursor
  range : MeasuredRange (renderer.measure availableWidth) items.toList first last st.measuredItems

theorem measureStep_spec (wf : items.WellFormed) (hheight : items.height ≤ 15)
    (hagrees : Agrees (renderer.measure availableWidth) items.toList) (overdraw : X)
    {st : Leading X F} (h : LeadingAt renderer availableWidth items first last st) :
    Returns (Counts (fun first st => LeadingAt renderer availableWidth items first last st)
        first (fun st => ∃ first, LeadingAt renderer availableWidth items first last st))
      (measureStep renderer availableWidth overdraw st) := by
  obtain ⟨hstands, range⟩ := h
  unfold measureStep
  by_cases hmore : st.leadingOverdraw < overdraw
  · rw [if_pos hmore]
    obtain ⟨cursor, hprev, hstands', hitem⟩ := prev_stands wf hheight hstands
    rw [hprev, ok_bind, hitem, ok_bind]
    cases first with
    | zero => exact returns_ok.mpr ⟨0, hstands', range⟩
    | succ first =>
      obtain ⟨item, hat⟩ : ∃ item, items.toList[first]? = some item := by
        have hle := hstands.1
        exact ⟨_, getElem?_eq_getElem (by omega)⟩
      have hvalue : cursor.start.value = first := hstands'.start_value wf
      rw [if_neg (Nat.succ_ne_zero first), Nat.add_sub_cancel, hat]
      rw [hvalue]
      -- an item measured before has the size it would be rendered with
      cases item with
      | measured size focusHandle =>
        obtain rfl := hagrees first _ size hat rfl
        exact returns_ok.mpr
          ⟨first, Nat.lt_succ_self first, hstands', range.cons hat⟩
      | unmeasured sizeHint focusHandle =>
        exact returns_ok.mpr
          ⟨first, Nat.lt_succ_self first, hstands', range.cons hat⟩
  · rw [if_neg hmore]
    exact returns_ok.mpr ⟨first, hstands, range⟩

/-- **The third loop** measures some more items above. -/
theorem measureLeading_spec (wf : items.WellFormed) (hheight : items.height ≤ 15)
    (hagrees : Agrees (renderer.measure availableWidth) items.toList) (overdraw : X)
    {st : Leading X F} (h : LeadingAt renderer availableWidth items first last st) :
    Returns (fun st => ∃ first, LeadingAt renderer availableWidth items first last st)
      (loop .loopBound (measureStep renderer availableWidth overdraw) items.size st) :=
  (loop_counts (fun first st => LeadingAt renderer availableWidth items first last st)
    (fun _ _ hat => (measureStep_spec wf hheight hagrees overdraw hat).ensures) items.size st first
    h (lt_of_le_of_lt h.stands.1 (SumTree.length_toList_lt items))).returns

end ListTree

end Gpui
