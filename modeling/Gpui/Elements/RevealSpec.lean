import Gpui.Elements.ScrollSpec

/-! # Revealing an item of a list

    `scroll_to_reveal_item` puts an item above the scroll position at the top of the
    viewport, and one below it at the bottom, unless it can be seen already.  The goal is
    a pixel position; a height is sought with `Bias::Left`, so that a goal at the edge of
    two items is the end of the first. -/

namespace Gpui

open List

variable {X F : Type} [Field X] [LinearOrder X]

/-! ## Section 1: Heights of items -/

section Heights

variable [IsStrictOrderedRing X] {items : List (ListItem X F)}

theorem totalHeight_take_mono (hitems : ∀ item ∈ items, 0 ≤ item.height) {i j : Nat}
    (hij : i ≤ j) : totalHeight (items.take i) ≤ totalHeight (items.take j) := by
  obtain ⟨between, hbetween⟩ := take_prefix_take_left (l := items) hij
  rw [← hbetween, totalHeight, totalHeight, List.map_append, List.sum_append]
  apply le_add_of_nonneg_right
  refine sum_nonneg fun h hh => ?_
  obtain ⟨item, hitem, rfl⟩ := mem_map.mp hh
  have htake : item ∈ items.take j := hbetween ▸ mem_append_right _ hitem
  exact hitems item (mem_of_mem_take htake)

theorem totalHeight_take_nonneg (hitems : ∀ item ∈ items, 0 ≤ item.height) (i : Nat) :
    0 ≤ totalHeight (items.take i) := by
  have hmono := totalHeight_take_mono hitems (Nat.zero_le i)
  rwa [take_zero] at hmono

omit [IsStrictOrderedRing X] in
/-- A height sought with `Bias::Left` lies in the item that it is found in, or at its end. -/
theorem seekHeightLeft_spec (items : List (ListItem X F)) (height : X) :
    ∃ k, seekHeightLeft items height = ⟨k, totalHeight (items.take k)⟩ ∧ k ≤ items.length ∧
      (0 < k → totalHeight (items.take k) < height) ∧
      (k < items.length → height ≤ totalHeight (items.take (k + 1))) := by
  obtain ⟨k, hseek, -, hlen, hlast, hnext⟩ :=
    seekItems_spec items (fun position => position.height < height) rfl (Nat.zero_le _)
  refine ⟨k, ?_, hlen, fun hpos => by simpa using hlast hpos, fun hlt => ?_⟩
  · rw [seekHeightLeft, seekItems_start]
    exact hseek
  · have hitem : items[k]? = some items[k] := getElem?_eq_getElem hlt
    rw [totalHeight_take_succ hitem]
    simpa using hnext _ hitem

end Heights

/-! ## Section 2: Revealing in a plain list -/

/-- An item lies in a viewport of some height: its top is not above the scroll position,
    and its bottom not below the end of the viewport. -/
structure Reveals (items : List (ListItem X F)) (height : X) (scrollTop : ListOffset X)
    (ix : Nat) : Prop where
  top : pixelPosition items scrollTop ≤ totalHeight (items.take ix)
  bottom : totalHeight (items.take (ix + 1)) ≤ pixelPosition items scrollTop + height

/-- The height of the viewport at the last layout. -/
def lastHeight (bounds : Option (Bounds X)) : X :=
  (bounds.map (fun bounds => bounds.size.height)).getD 0

theorem ListState.scrollToRevealItem_ok [IsStrictOrderedRing X] (state : StateInner X F)
    (hitems : ∀ item ∈ state.items, 0 ≤ item.height)
    (hpadding : ∀ padding, state.lastPadding = some padding →
      padding.top = 0 ∧ padding.bottom = 0)
    (hinside : ∀ item, state.items[state.getLogicalScrollTop.itemIx]? = some item →
      0 ≤ state.getLogicalScrollTop.offsetInItem ∧
        state.getLogicalScrollTop.offsetInItem ≤ item.height)
    {ix : Nat} {item : ListItem X F} (hix : state.items[ix]? = some item)
    (hfits : item.height ≤ lastHeight state.lastLayoutBounds) :
    ∃ scrollTop, (scrollToRevealItem state ix).logicalScrollTop = some scrollTop ∧
      Reveals state.items (lastHeight state.lastLayoutBounds) scrollTop ix := by
  have hsucc := totalHeight_take_succ hix
  have hlt : ix < state.items.length := (List.getElem?_eq_some_iff.mp hix).1
  refine ⟨_, rfl, ?_⟩
  have hnone : (state.lastPadding.getD ⟨0, 0, 0, 0⟩).top = 0 ∧
      (state.lastPadding.getD ⟨0, 0, 0, 0⟩).bottom = 0 := by
    cases hlast : state.lastPadding with
    | none => exact ⟨rfl, rfl⟩
    | some padding => exact hpadding padding hlast
  by_cases habove : ix ≤ state.getLogicalScrollTop.itemIx
  · -- the item is put at the top
    rw [if_pos habove]
    constructor
    · rw [pixelPosition, add_zero]
    · rw [pixelPosition, add_zero, hsucc]
      linarith
  rw [if_neg habove, hnone.1, hnone.2, seekCount_eq hlt]
  dsimp only
  obtain ⟨height, hheight⟩ : ∃ height, lastHeight state.lastLayoutBounds = height := ⟨_, rfl⟩
  rw [show (state.lastLayoutBounds.map (fun bounds => bounds.size.height)).getD 0 = height from
    hheight, add_zero, add_zero, hheight]
  obtain ⟨goalTop, hgoal⟩ :
      ∃ goalTop, max 0 (totalHeight (state.items.take (ix + 1)) - height) = goalTop := ⟨_, rfl⟩
  have hgoalTop : goalTop ≤ totalHeight (state.items.take ix) := by
    rw [← hgoal]
    apply max_le (totalHeight_take_nonneg hitems ix)
    linarith
  have hgoalBottom : totalHeight (state.items.take (ix + 1)) ≤ goalTop + height := by
    have hle : totalHeight (state.items.take (ix + 1)) - height ≤ goalTop := hgoal ▸ le_max_right _ _
    linarith
  obtain ⟨k, hseek, hlen, -, hnext⟩ := seekHeightLeft_spec state.items goalTop
  rw [hgoal, hseek]
  by_cases hbehind : state.getLogicalScrollTop.itemIx ≤ k
  · -- the scroll position moves to the goal
    rw [if_pos hbehind]
    have hposition : ∀ first : X, pixelPosition state.items ⟨k, first - totalHeight
        (state.items.take k)⟩ = first := fun _ => add_sub_cancel _ _
    constructor
    · rw [hposition]
      exact hgoalTop
    · rw [hposition]
      exact hgoalBottom
  · -- the goal lies before the item at the scroll position, and that before the revealed one
    rw [if_neg hbehind]
    obtain ⟨first, hfirst⟩ : ∃ first,
        state.items[state.getLogicalScrollTop.itemIx]? = some first :=
      ⟨_, getElem?_eq_getElem (by omega)⟩
    obtain ⟨hnonneg, hoffset⟩ := hinside first hfirst
    have hgoalFirst : goalTop ≤ totalHeight (state.items.take state.getLogicalScrollTop.itemIx) :=
      (hnext (by omega)).trans (totalHeight_take_mono hitems (by omega))
    have hfirstTop : totalHeight (state.items.take (state.getLogicalScrollTop.itemIx + 1))
        ≤ totalHeight (state.items.take ix) := totalHeight_take_mono hitems (by omega)
    rw [totalHeight_take_succ hfirst] at hfirstTop
    constructor
    · rw [pixelPosition]
      linarith
    · rw [pixelPosition]
      linarith

/-! ## Section 3: Revealing in the tree -/

omit [Field X] in
theorem Height.reached_targetSummary_left (height : X) (summary : ListItemSummary X) :
    reached (Height.targetSummary height) .left summary =
      decide (summary.toPosition.height < height) := by
  unfold reached Height.targetSummary ListItemSummary.toPosition
  rcases lt_trichotomy summary.height height with hlt | heq | hgt
  · simp [(cmp_eq_gt_iff height summary.height).mpr hlt, hlt]
  · simp [heq]
  · simp [(cmp_eq_lt_iff height summary.height).mpr hgt, hgt.le]

namespace ListTree

variable [IsStrictOrderedRing X] {state : ListTree X F}

/-- **Revealing in the tree refines that in the list**, for items of no negative height. -/
theorem scrollToRevealItem_refines (wf : state.items.WellFormed) (hheight : state.items.height ≤ 15)
    (hitems : ∀ item ∈ state.items.toList, 0 ≤ item.height) (ix : Nat) :
    (state.scrollToRevealItem ix).map toInner =
      .ok (ListState.scrollToRevealItem state.toInner ix) := by
  unfold scrollToRevealItem ListState.scrollToRevealItem
  rw [getLogicalScrollTop_eq wf]
  dsimp only
  by_cases habove : ix ≤ state.toInner.getLogicalScrollTop.itemIx
  · rw [if_pos habove, if_pos habove]
    exact rebaseTo_refines wf hheight _
  · rw [if_neg habove, if_neg habove]
    obtain ⟨c, found, before, after, hseek, hat, hstart⟩ :=
      seek_toPosition (fun position => position.count ≤ ix + 1)
        (Count.reached_targetSummary _) (Count.monotone_targetSummary _ _) wf hheight
        (c := .new state.items) rfl (Count.targetSummary_zero _)
    change c.start.toPosition = seekCount state.items.toList (ix + 1) at hstart
    have hlist : state.toInner.items = state.items.toList := rfl
    have hstartHeight : c.start.toPosition.height = c.start.height := rfl
    have hbounds : state.toInner.lastLayoutBounds = state.lastLayoutBounds := rfl
    have hpadding : state.toInner.lastPadding = state.lastPadding := rfl
    rw [hlist, ← hstart, hstartHeight, hbounds, hpadding]
    simp only [hseek, Exec.ok_bind]
    have hnonneg : 0 ≤ max 0 (c.start.height + (state.lastPadding.getD ⟨0, 0, 0, 0⟩).top
      - (state.lastLayoutBounds.map (fun bounds => bounds.size.height)).getD 0
      + (state.lastPadding.getD ⟨0, 0, 0, 0⟩).bottom) := le_max_left _ _
    generalize max 0 (c.start.height + (state.lastPadding.getD ⟨0, 0, 0, 0⟩).top
      - (state.lastLayoutBounds.map (fun bounds => bounds.size.height)).getD 0
      + (state.lastPadding.getD ⟨0, 0, 0, 0⟩).bottom) = goalTop at hnonneg ⊢
    -- once more from the start
    obtain ⟨c', found', before', after', hseek', -, hend⟩ :=
      seek_toPosition (fun position => position.height < goalTop)
        (Height.reached_targetSummary_left goalTop) (Height.monotone_targetSummary goalTop hitems)
        wf hheight hat.tree (fun h => hnonneg.not_gt ((cmp_eq_lt_iff _ _).mp h))
    rw [seekHeightLeft, ← hend]
    have hcount : c'.start.toPosition.count = c'.start.count := rfl
    have hendHeight : c'.start.toPosition.height = c'.start.height := rfl
    simp only [hseek', Exec.ok_bind, hcount, hendHeight]
    split
    · exact rebaseTo_refines wf hheight _
    · exact rebaseTo_refines wf hheight _

omit [IsStrictOrderedRing X] in
/-- The tree of the items is only read. -/
theorem scrollToRevealItem_items {ix : Nat} {state' : ListTree X F}
    (h : state.scrollToRevealItem ix = .ok state') : state'.items = state.items := by
  have hset : ∀ {scrollTop : ListOffset X}, (do
      let state ← state.rebasePendingScroll scrollTop
      return { state with logicalScrollTop := some scrollTop } : Run (ListTree X F)) =
        .ok state' → state'.items = state.items := by
    intro scrollTop hset
    obtain ⟨rebased, hrebase, hset⟩ := Exec.bind_eq_ok.mp hset
    have hitems := rebasePendingScroll_items hrebase
    cases hset
    exact hitems
  unfold scrollToRevealItem at h
  dsimp only at h
  split at h
  · exact hset h
  · obtain ⟨⟨c, found⟩, -, h⟩ := Exec.bind_eq_ok.mp h
    obtain ⟨⟨c', found'⟩, -, h⟩ := Exec.bind_eq_ok.mp h
    dsimp only at h
    split at h
    · exact hset h
    · exact hset h

/-- **Revealing an item** that is no higher than the viewport brings it into view, on a
    tree that a cursor has room for. -/
theorem scrollToRevealItem_reveals (wf : state.items.WellFormed) (hheight : state.items.height ≤ 15)
    (hitems : ∀ item ∈ state.items.toList, 0 ≤ item.height)
    (hpadding : ∀ padding, state.lastPadding = some padding →
      padding.top = 0 ∧ padding.bottom = 0)
    (hinside : ∀ item, state.items.toList[state.getLogicalScrollTop.itemIx]? = some item →
      0 ≤ state.getLogicalScrollTop.offsetInItem ∧
        state.getLogicalScrollTop.offsetInItem ≤ item.height)
    {ix : Nat} {item : ListItem X F} (hix : state.items.toList[ix]? = some item)
    (hfits : item.height ≤ lastHeight state.lastLayoutBounds) :
    ∃ state' scrollTop, state.scrollToRevealItem ix = .ok state' ∧
      state'.items = state.items ∧ state'.logicalScrollTop = some scrollTop ∧
      Reveals state.items.toList (lastHeight state.lastLayoutBounds) scrollTop ix := by
  rw [getLogicalScrollTop_eq wf] at hinside
  obtain ⟨scrollTop, htop, hreveals⟩ :=
    ListState.scrollToRevealItem_ok state.toInner hitems hpadding hinside hix hfits
  have hrefines := scrollToRevealItem_refines wf hheight hitems ix
  cases hrun : state.scrollToRevealItem ix with
  | error e =>
    rw [hrun] at hrefines
    cases hrefines
  | ok state' =>
    rw [hrun] at hrefines
    have hinner : state'.toInner = ListState.scrollToRevealItem state.toInner ix :=
      Except.ok.inj hrefines
    have htop' : state'.logicalScrollTop = some scrollTop := by
      rw [← htop, ← hinner]
      rfl
    exact ⟨state', scrollTop, rfl, scrollToRevealItem_items hrun, htop', hreveals⟩

/-- The last of three items, in a viewport of half their height. -/
theorem scrollToRevealItem_reveals_threeItems :
    let items : List (ListItem ℚ Unit) :=
      [.measured ⟨0, 20⟩ none, .measured ⟨0, 20⟩ none, .measured ⟨0, 20⟩ none]
    let state := { ofItems items with lastLayoutBounds := some ⟨⟨0, 0⟩, ⟨100, 30⟩⟩ }
    ∃ state' scrollTop, state.scrollToRevealItem 2 = .ok state' ∧
      state'.items = state.items ∧ state'.logicalScrollTop = some scrollTop ∧
      Reveals state.items.toList (lastHeight state.lastLayoutBounds) scrollTop 2 := by
  intro items state
  have wf : state.items.WellFormed := wellFormed_leaf (by decide)
  have hall : ∀ item ∈ state.items.toList, item.height = 20 :=
    fun item hitem => height_of_mem_replicate (show item ∈ List.replicate 3 _ from hitem)
  have hlast : state.items.toList[2]? = some (.measured ⟨0, 20⟩ none) := rfl
  refine scrollToRevealItem_reveals wf (by decide) ?_ ?_ ?_ hlast ?_
  · intro item hitem
    rw [hall item hitem]
    norm_num
  · intro padding h
    cases h
  · intro item hitem
    rw [hall item (mem_of_getElem? hitem)]
    exact ⟨le_refl 0, by show (0 : ℚ) ≤ 20; norm_num⟩
  · show (20 : ℚ) ≤ 30
    norm_num

/-- In a list whose tree is too deep for a cursor no item below the scroll position can be
    revealed.  The items were measured all at once, as `layout_all_items` does it. -/
theorem scrollToRevealItem_panics :
    ∃ items : SumTree (ListItem ℚ Unit) (ListItemSummary ℚ),
      SumTree.fromIter (List.replicate (12 ^ 16 + 1) (.measured ⟨0, 1⟩ none)) = .ok items ∧
      ∃ e, scrollToRevealItem
        { lastLayoutBounds := some ⟨⟨0, 0⟩, ⟨0, 2⟩⟩
          lastPadding := none
          items := items
          logicalScrollTop := none
          alignment := .top
          overdraw := 0
          reset := false
          scrollbarDragStartHeight := none
          measuringBehavior := .measure true
          pendingScroll := none
          followState := .normal } 1 = .error e := by
  obtain ⟨items, hitems, wf, hlist, hdeep⟩ :=
    fromIter_deep (ListItem.measured (F := Unit) (⟨0, 1⟩ : Size ℚ) none)
  refine ⟨items, hitems, ?_⟩
  obtain ⟨e, he⟩ := Cursor.seek_deep (Count.targetSummary (X := ℚ) 2) .right wf hdeep (by
    rw [Count.reached_targetSummary]
    show decide ((measure (ListItemSummary ℚ) items.toList).count ≤ 2) = false
    rw [measure_summary_count, hlist, length_replicate]
    decide)
  refine ⟨e, ?_⟩
  simp only [scrollToRevealItem, getLogicalScrollTop, he]
  rfl

end ListTree

end Gpui
