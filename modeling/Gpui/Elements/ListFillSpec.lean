import Gpui.Elements.ListLayoutSpec

/-! # The layout of a list: the tree that is made and the scroll position

    What the loops have measured is put back into the tree, which is then searched for a
    focused item.  The scroll position that is left shows no blank space behind the items,
    unless all of them are visible. -/

namespace Gpui

open List

open Exec (Returns Ensures Next loop Counts)

variable {X F E : Type} [Field X]

/-! ## Section 1: The new tree -/

namespace ListTree

variable {items : SumTree (ListItem X F) (ListItemSummary X)}
  {measuredItems : List (ListItem X F)} {first : Nat}

variable (first) in
/-- **Measured items take their places**: what is before and behind the range stays. -/
theorem spliceMeasured_ok (wf : items.WellFormed) (hheight : items.height ≤ 15)
    (hrange : first + measuredItems.length ≤ items.toList.length) :
    ∃ items', spliceMeasured items first measuredItems = .ok items' ∧ items'.WellFormed ∧
      items'.toList = items.toList.take first ++ measuredItems ++
        items.toList.drop (first + measuredItems.length) := by
  -- the items before the range
  obtain ⟨c, front, after, hslice, stopped, wfFront, hfront, -⟩ := sliceFront wf hheight first
  have hlowFront : front.height ≤ 56 :=
    Cursor.slice_low Tracks.measured determines_measured wf hheight (.inl ⟨rfl, rfl, rfl⟩) hslice
  -- those behind it are sought from the start
  obtain ⟨c', found, mid, rest, hseek, stopped', -⟩ :=
    Cursor.seek_returns (Count.target (first + measuredItems.length)) .right wf hheight
      stopped.pos.tree (by simp [Count.target, cmp_eq_lt_iff, Dimension.zero])
  have hmid : mid = items.toList.take (first + measuredItems.length) := by
    have hreached := stopped'.mid_eq (Count.monotone_target _ _)
    rw [Count.reachedFrom_target] at hreached
    exact hreached.symm
  obtain ⟨c'', tail, hsuffix, -, wfTail, htail⟩ :=
    Cursor.suffix_returns wf hheight (.inr stopped'.pos)
  have hlowTail : tail.height ≤ 56 :=
    Cursor.slice_low Tracks.measured determines_measured wf hheight (.inr stopped'.pos) hsuffix
  have hfew : measuredItems.length ≤ nodeCapacity ^ 57 := by
    have hlength := wf.length_toList_le
    have hpow : nodeCapacity ^ (items.height + 1) ≤ nodeCapacity ^ 57 :=
      Nat.pow_le_pow_right (by decide) (by omega)
    omega
  obtain ⟨extended, items', hextend, happend, wf', hitems⟩ :=
    extend_append_ok wfFront hlowFront hfew wfTail hlowTail
  refine ⟨items', ?_, wf', ?_⟩
  · simp only [spliceMeasured, hslice, hextend, hseek, hsuffix, happend, Exec.ok_bind]
  · have hrest : rest = items.toList.drop (first + measuredItems.length) := by
      have hsplit := stopped'.split
      rw [hmid] at hsplit
      exact (append_cancel_left ((take_append_drop _ _).trans hsplit)).symm
    rw [hitems, htail, hfront, hrest]

end ListTree

/-- Items keep their places, and some that were not measured have the size that they are
    rendered with. -/
structure Remeasured (measure : Nat → Size X) (items items' : List (ListItem X F)) : Prop where
  length : items'.length = items.length
  item : ∀ (i : Nat) item, items[i]? = some item → items'[i]? = some item ∨
    ∃ sizeHint focusHandle, item = .unmeasured sizeHint focusHandle ∧
      items'[i]? = some (.measured (measure i) focusHandle)

section Ranges

variable {measure : Nat → Size X} {items measuredItems : List (ListItem X F)}
  {first last : Nat}

omit [Field X] in
theorem MeasuredRange.length (h : MeasuredRange measure items first last measuredItems) :
    first + measuredItems.length = last := by
  have hfirst := h.first_le
  have hlast := h.last_le
  rw [h.measured, between, length_drop, length_take, measureItems, length_mapIdx]
  omega

omit [Field X] in
/-- With the measured items in their places, the items are measured anew. -/
theorem MeasuredRange.remeasured (h : MeasuredRange measure items first last measuredItems)
    (hagrees : Agrees measure items) :
    Remeasured measure items (items.take first ++ measuredItems ++ items.drop last) := by
  have hfirst := h.first_le
  have hlast := h.last_le
  have hlength := h.length
  constructor
  · rw [length_append, length_append, length_take, length_drop]
    omega
  · intro i item hitem
    have hlt := (List.getElem?_eq_some_iff.mp hitem).1
    rcases Nat.lt_or_ge i first with hbefore | hbehind
    · -- before the range
      left
      rw [append_assoc, getElem?_append_left (by rw [length_take]; omega),
        getElem?_take_of_lt hbefore, hitem]
    rcases Nat.lt_or_ge i last with hin | hout
    · -- in the range, an item that was measured is measured as before
      have hmeasured : (items.take first ++ measuredItems ++ items.drop last)[i]? =
          some (.measured (measure i) item.focusHandle) := by
        rw [append_assoc, getElem?_append_right (by rw [length_take]; omega),
          getElem?_append_left (by rw [length_take]; omega), h.measured, between,
          length_take, Nat.min_eq_left (by omega), getElem?_drop,
          getElem?_take_of_lt (by omega), Nat.add_sub_cancel' hbehind,
          measureItems_getElem? hitem]
      cases item with
      | measured size focusHandle =>
        left
        rw [hmeasured, ← hagrees i _ size hitem rfl]
        rfl
      | unmeasured sizeHint focusHandle =>
        exact Or.inr ⟨sizeHint, focusHandle, rfl, hmeasured⟩
    · -- behind the range
      left
      rw [getElem?_append_right (by rw [length_append, length_take]; omega),
        length_append, length_take, getElem?_drop, ← hitem]
      congr 1
      omega

end Ranges

/-! ## Section 2: The search for a focused item -/

/-- An item with a focus handle is found in the sums of the items around it. -/
theorem distributes_hasFocusHandles :
    Distributes (fun summary : ListItemSummary X => summary.hasFocusHandles) :=
  fun _ _ => rfl

namespace ListTree

variable {renderer : ItemRenderer X F E} {availableWidth : Option X}
  {items : SumTree (ListItem X F) (ListItemSummary X)}

/-- The cursor goes from one focus handle to the next, and `left` items are still ahead. -/
structure FocusAt (items : SumTree (ListItem X F) (ListItemSummary X)) (left : Nat)
    (c : FocusCursor X F) : Prop where
  filterNode : c.filterNode = fun summary => summary.hasFocusHandles
  ahead : ∃ before after, c.cursor.At Measured items before after ∧ after.length = left

/-- The next focus handle is ahead, if the stack has room for the way to it. -/
theorem nextFocus_spec (wf : items.WellFormed) {start ahead : List (ListItem X F)}
    {c : FocusCursor X F} (hfilter : c.filterNode = fun summary => summary.hasFocusHandles)
    (leaving : Cursor.Leaving Measured items start ahead c.cursor) :
    Ensures (fun c' => ∃ left ≤ ahead.length, FocusAt items left c')
      (fun e => e = .stackFull ∧ 15 < items.height) c.next := by
  have prunes : Prunes (ListItem X F) c.filterNode := by
    rw [hfilter]
    exact distributes_hasFocusHandles.prunes
  refine (Cursor.searchForward_spec Tracks.measured wf prunes leaving).bind ?_
  rintro cursor ⟨skipped, after, ⟨hsplit, -⟩, pos, -⟩
  refine ⟨after.length, ?_, hfilter, _, after, pos, rfl⟩
  rw [hsplit, length_append]
  omega

theorem focusStep_spec (wf : items.WellFormed) {left : Nat} {c : FocusCursor X F}
    (h : FocusAt items left c) :
    Ensures (Counts (FocusAt items) left (fun _ => True))
      (fun e => e = .stackFull ∧ 15 < items.height)
      (focusStep renderer availableWidth c) := by
  obtain ⟨hfilter, before, after, pos, rfl⟩ := h
  have hitem : c.item = .ok after.head? := pos.item_eq
  unfold focusStep
  rw [hitem, Exec.ok_bind]
  cases after with
  | nil => trivial
  | cons item after =>
    dsimp only [head?_cons]
    by_cases hfocused : item.containsFocused renderer = true
    · rw [if_pos hfocused]
      trivial
    · rw [if_neg hfocused]
      refine (nextFocus_spec wf hfilter (.item pos)).bind ?_
      rintro c' ⟨left, hleft, hat⟩
      exact ⟨left, Nat.lt_succ_of_le hleft, hat⟩

/-- **The last loop** ends, if the stack has room. -/
theorem layoutFocused_spec (wf : items.WellFormed) :
    Ensures (fun _ => True) (fun e => e = .stackFull ∧ 15 < items.height)
      (layoutFocused renderer availableWidth items) := by
  refine (nextFocus_spec wf rfl .new).bind ?_
  rintro c ⟨left, hleft, hat⟩
  exact Exec.loop_counts (FocusAt items) (fun _ _ hat => focusStep_spec wf hat) items.size c left
    hat (lt_of_le_of_lt hleft (SumTree.length_toList_lt items))

end ListTree

/-! ## Section 3: The scroll position -/

section Positions

variable {measure : Nat → Size X}

variable (measure) in
/-- The pixels above a scroll position when all items are rendered. -/
def truePosition (scrollTop : ListOffset X) : X :=
  trueTop measure scrollTop.itemIx + scrollTop.offsetInItem

variable (measure) in
/-- The height of `count` items with the padding around them. -/
def contentHeight (count : Nat) (padding : Edges X) : X :=
  trueTop measure count + padding.top + padding.bottom

variable [LinearOrder X] [IsStrictOrderedRing X] {n : Nat}

theorem trueTop_le (hnonneg : ∀ i < n, 0 ≤ (measure i).height) {j k : Nat} (hjk : j ≤ k)
    (hk : k ≤ n) : trueTop measure j ≤ trueTop measure k := by
  induction k, hjk using Nat.le_induction with
  | base => exact le_refl _
  | succ k hjk ih =>
    rw [trueTop_succ]
    have hheight := hnonneg k hk
    have hle := ih (Nat.le_of_succ_le hk)
    linarith

theorem trueTop_nonneg (hnonneg : ∀ i < n, 0 ≤ (measure i).height) {k : Nat} (hk : k ≤ n) :
    0 ≤ trueTop measure k :=
  trueTop_le hnonneg (Nat.zero_le k) hk

/-- **Where the list is scrolled to**: if more items were rendered than the viewport shows,
    they fill it already. -/
theorem position_eq_min {last : Nat} (hnonneg : ∀ i < n, 0 ≤ (measure i).height)
    (hlast : last ≤ n) {padding : Edges X} {availableHeight overdraw position : X}
    (hposition : 0 ≤ position) (hoverdraw : 0 ≤ overdraw + padding.bottom) (henough : last = n ∨
      availableHeight + overdraw + position ≤ padding.top + trueTop measure last) :
    (if padding.top + padding.bottom + trueTop measure last - availableHeight < position
      then max 0 (padding.top + padding.bottom + trueTop measure last - availableHeight)
      else position) = min position (max 0 (contentHeight measure n padding - availableHeight)) := by
  unfold contentHeight
  rcases henough with rfl | henough
  · -- up to the last item
    rw [show trueTop measure last + padding.top + padding.bottom - availableHeight =
      padding.top + padding.bottom + trueTop measure last - availableHeight by ring]
    split
    · next hlt => rw [min_eq_right (max_le hposition hlt.le)]
    · next hge => rw [min_eq_left (le_max_of_le_right (not_lt.mp hge))]
  · have hrest := trueTop_le hnonneg hlast (le_refl n)
    rw [if_neg (by linarith), min_eq_left (le_max_of_le_right (by linarith))]

end Positions

/-! ## Section 4: `layout_items` -/

namespace ListTree

/-- The tree in which the items of a range were measured. -/
def Rebuilt (measure : Nat → Size X) (items items' : SumTree (ListItem X F) (ListItemSummary X)) :
    Prop :=
  ∃ first last measuredItems, MeasuredRange measure items.toList first last measuredItems ∧
    spliceMeasured items first measuredItems = .ok items'

section Rebuilding

variable {measure : Nat → Size X} {items : SumTree (ListItem X F) (ListItemSummary X)}
  {measuredItems : List (ListItem X F)} {first last : Nat}

theorem rebuilds (wf : items.WellFormed) (hheight : items.height ≤ 15)
    (hagrees : Agrees measure items.toList)
    (range : MeasuredRange measure items.toList first last measuredItems) :
    ∃ items', spliceMeasured items first measuredItems = .ok items' ∧ Rebuilt measure items items' ∧
      items'.WellFormed ∧ Remeasured measure items.toList items'.toList := by
  have hlength := range.length
  obtain ⟨items', hsplice, wf', hitems⟩ := spliceMeasured_ok first wf hheight
    (hlength ▸ range.last_le)
  refine ⟨items', hsplice, ⟨first, last, measuredItems, range, hsplice⟩, wf', ?_⟩
  rw [hitems, hlength]
  exact range.remeasured hagrees

end Rebuilding

variable [LinearOrder X] {renderer : ItemRenderer X F E} {availableWidth : Option X}
  {availableHeight : X} {list : ListTree X F} {padding : Edges X}

theorem resumeFollowing_items (scrollTop : ListOffset X) :
    (resumeFollowing availableHeight list scrollTop).items = list.items := by
  unfold resumeFollowing
  split
  · dsimp only
    split
    · rfl
    · rfl
  · rfl

/-- **Layout fills the viewport and preserves the list.**  Items are only measured, and the
    scroll position moves up as far as there is blank space behind them. -/
theorem layoutItems_fills [IsStrictOrderedRing X] (renderer : ItemRenderer X F E)
    (availableWidth : Option X) (availableHeight : X) (list : ListTree X F) (padding : Edges X)
    (wf : list.items.WellFormed) (hheight : list.items.height ≤ 15)
    (hpending : list.pendingScroll = none) (hfollow : list.followState.isFollowing = false)
    (htop : list.alignment = .top)
    (hagrees : Agrees (renderer.measure availableWidth) list.items.toList)
    (hnonneg : ∀ i < list.items.toList.length, 0 ≤ (renderer.measure availableWidth i).height)
    (hitemIx : list.getLogicalScrollTop.itemIx ≤ list.items.toList.length)
    (hoffset : 0 ≤ list.getLogicalScrollTop.offsetInItem)
    (hoverdraw : 0 ≤ list.overdraw + padding.bottom) :
    Ensures
      (fun r => Remeasured (renderer.measure availableWidth) list.items.toList r.1.items.toList ∧
        truePosition (renderer.measure availableWidth) r.2.scrollTop =
          min (truePosition (renderer.measure availableWidth) list.getLogicalScrollTop)
            (max 0 (contentHeight (renderer.measure availableWidth) list.items.toList.length padding
              - availableHeight)) ∧
        (availableHeight ≤ contentHeight (renderer.measure availableWidth)
            list.items.toList.length padding →
          truePosition (renderer.measure availableWidth) r.2.scrollTop + availableHeight ≤
            contentHeight (renderer.measure availableWidth) list.items.toList.length padding))
      (fun e => e = .stackFull ∧
        ∃ items', Rebuilt (renderer.measure availableWidth) list.items items' ∧ 15 < items'.height)
      (layoutItems renderer availableWidth availableHeight list padding) := by
  have hstart : list.startScrollTop = (list, list.getLogicalScrollTop) := by
    unfold startScrollTop
    rw [hfollow]
    rfl
  -- from the scroll position on
  obtain ⟨rendering, hrender, last, hlist, hscrollTop, ⟨place, hplace⟩, measures, henough⟩ :=
    renderItems_spec availableHeight padding wf hheight hpending hagrees hitemIx
  -- back to it, and further up
  obtain ⟨cursor, found, hseek, hstands⟩ := seek_stands wf hheight hplace hitemIx
  have hfilling : FillingAt renderer availableWidth list.items (padding.top + padding.bottom)
      list.getLogicalScrollTop.itemIx last
      ⟨cursor, { rendering.layout with
        renderedHeight := rendering.layout.renderedHeight + padding.bottom }⟩ := by
    refine ⟨⟨hitemIx, Or.inl hstands⟩, measures.range, ?_⟩
    dsimp only
    rw [measures.height]
    ring
  obtain ⟨logicalScrollTop, scrollTop, filling, hfill, hfirst, hposition⟩ :=
    fillViewport_spec availableHeight wf hheight (fun k hk => trueTop_nonneg hnonneg hk) htop
      hfilling
  have hleadingAt : LeadingAt renderer availableWidth list.items scrollTop.itemIx last
      ⟨filling.cursor, filling.layout.measuredItems, scrollTop.offsetInItem⟩ :=
    ⟨hfirst.stands, hfirst.measures.range⟩
  obtain ⟨leading, hleading, first, hstands', range⟩ :=
    measureLeading_spec wf hheight hagrees list.overdraw hleadingAt
  -- what is measured comes back to where it was
  have hvalue : leading.cursor.start.value = first := hstands'.start_value wf
  obtain ⟨items', hsplice, hrebuilt, wf', hremeasured⟩ := rebuilds wf hheight hagrees range
  unfold layoutItems
  rw [hstart]
  dsimp only
  rw [hrender, Exec.ok_bind, hscrollTop, hseek, Exec.ok_bind, hlist, hfill, Exec.ok_bind,
    hleading, Exec.ok_bind, hvalue, hsplice, Exec.ok_bind, resumeFollowing_items]
  have hmoved : truePosition (renderer.measure availableWidth) scrollTop =
      min (truePosition (renderer.measure availableWidth) list.getLogicalScrollTop)
        (max 0 (contentHeight (renderer.measure availableWidth) list.items.toList.length padding
          - availableHeight)) := by
    refine hposition.trans (position_eq_min hnonneg measures.range.last_le
      (add_nonneg (trueTop_nonneg hnonneg hitemIx) hoffset) hoverdraw ?_)
    rw [measures.height] at henough
    exact henough.imp_right fun henough => by linarith
  have hshown : availableHeight ≤
        contentHeight (renderer.measure availableWidth) list.items.toList.length padding →
      truePosition (renderer.measure availableWidth) scrollTop + availableHeight ≤
        contentHeight (renderer.measure availableWidth) list.items.toList.length padding := by
    intro htall
    have hle := hmoved.le.trans (min_le_right _ _)
    rw [max_eq_right (by linarith)] at hle
    linarith
  have hkept : Remeasured (renderer.measure availableWidth) list.items.toList
      (resumeFollowing availableHeight
        { list with logicalScrollTop := logicalScrollTop, items := items' } scrollTop).items.toList := by
    rw [resumeFollowing_items]
    exact hremeasured
  -- a focused item out of sight is searched for in the new tree
  split
  · exact ⟨hkept, hmoved, hshown⟩
  · exact ((layoutFocused_spec wf').imp (fun _ h => h)
      (fun e he => ⟨he.1, items', hrebuilt, he.2⟩)).bind (fun _ _ => ⟨hkept, hmoved, hshown⟩)

/-- Three items, the first of them measured before, in a viewport that shows two. -/
theorem layoutItems_fills_threeItems :
    let renderer : ItemRenderer ℚ Unit Unit := ⟨fun _ => (), fun _ _ => ⟨0, 6⟩, fun _ => false⟩
    let items : List (ListItem ℚ Unit) :=
      [.measured ⟨0, 6⟩ none, .unmeasured none none, .unmeasured none (some ())]
    let list := { ListTree.ofItems items with logicalScrollTop := some ⟨2, 1⟩, overdraw := 4 }
    Ensures
      (fun r => Remeasured (renderer.measure none) items r.1.items.toList ∧
        truePosition (renderer.measure none) r.2.scrollTop =
          min (truePosition (renderer.measure none) ⟨2, 1⟩)
            (max 0 (contentHeight (renderer.measure none) 3 ⟨1, 0, 2, 0⟩ - 12)) ∧
        (12 ≤ contentHeight (renderer.measure none) 3 ⟨1, 0, 2, 0⟩ →
          truePosition (renderer.measure none) r.2.scrollTop + 12 ≤
            contentHeight (renderer.measure none) 3 ⟨1, 0, 2, 0⟩))
      (fun e => e = .stackFull ∧
        ∃ items', Rebuilt (renderer.measure none) list.items items' ∧ 15 < items'.height)
      (layoutItems renderer none 12 list ⟨1, 0, 2, 0⟩) := by
  intro renderer items list
  have wf : list.items.WellFormed := wellFormed_leaf (by decide)
  refine layoutItems_fills renderer none 12 list ⟨1, 0, 2, 0⟩ wf (by decide) rfl rfl rfl ?_ ?_
    (by decide) ?_ ?_
  · intro i item size hitem hsize
    have hin : item ∈ items := mem_of_getElem? hitem
    simp only [items, mem_cons, not_mem_nil, or_false] at hin
    rcases hin with rfl | rfl | rfl
    · exact (Option.some.inj hsize).symm
    · cases hsize
    · cases hsize
  · intro i _
    show (0 : ℚ) ≤ 6
    norm_num
  · show (0 : ℚ) ≤ 1
    norm_num
  · show (0 : ℚ) ≤ 4 + 2
    norm_num

/-- A tree too deep for a cursor is not laid out.  With less than no overdraw rendering may
    stop before the viewport is full, and the scroll position moves up though there are items
    below. -/
theorem layoutItems_moves :
    let renderer : ItemRenderer ℚ Unit Unit := ⟨fun _ => (), fun _ _ => ⟨0, 6⟩, fun _ => false⟩
    let state (items : SumTree (ListItem ℚ Unit) (ListItemSummary ℚ)) (itemIx : Nat)
        (overdraw : ℚ) : ListTree ℚ Unit := {
      lastLayoutBounds := none
      lastPadding := none
      items := items
      logicalScrollTop := some ⟨itemIx, 0⟩
      alignment := .top
      overdraw := overdraw
      reset := false
      scrollbarDragStartHeight := none
      measuringBehavior := .visible
      pendingScroll := none
      followState := .normal }
    (∃ items, SumTree.fromIter (List.replicate (12 ^ 16 + 1) (.unmeasured none none)) = .ok items ∧
      ∃ e, layoutItems renderer none 10 (state items 0 0) ⟨0, 0, 0, 0⟩ = .error e) ∧
    ∃ items, SumTree.fromIter (List.replicate 3 (.unmeasured none none)) = .ok items ∧
      (layoutItems renderer none 10 (state items 1 (-5)) ⟨0, 0, 0, 0⟩).map (fun r => r.2.scrollTop)
        = .ok ⟨0, 2⟩ ∧
      truePosition (renderer.measure none) ⟨0, 2⟩ ≠ min (truePosition (renderer.measure none) ⟨1, 0⟩)
        (max 0 (contentHeight (renderer.measure none) 3 ⟨0, 0, 0, 0⟩ - 10)) := by
  intro renderer state
  constructor
  · obtain ⟨items, hitems, wf, hlist, hdeep⟩ :=
      fromIter_deep (ListItem.unmeasured (X := ℚ) (F := Unit) none none)
    obtain ⟨e, he⟩ := Cursor.seek_deep (Count.target 0) .right wf hdeep (by
      show reached (fun position : Count => cmp 0 position.value) .right _ = false
      rw [reached_cmp_right, measure_count, hlist, length_replicate]
      decide)
    refine ⟨items, hitems, e, ?_⟩
    have hrender : ∀ padding, renderItems renderer none 10 (state items 0 0) ⟨0, 0⟩ padding =
        .error e := by
      intro padding
      unfold renderItems
      dsimp only
      rw [show (state items 0 0).items = items from rfl, he]
      rfl
    unfold layoutItems
    rw [show (state items 0 0).startScrollTop = (state items 0 0, ⟨0, 0⟩) from rfl]
    dsimp only
    rw [hrender]
    rfl
  · refine ⟨_, rfl, ?_, ?_⟩
    · decide +kernel
    · decide +kernel

end ListTree

end Gpui
