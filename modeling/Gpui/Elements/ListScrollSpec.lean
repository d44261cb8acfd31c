import Gpui.Elements.RevealSpec
import Gpui.SumTree.FindSpec

/-! # What a scroll event reports

    A scroll event moves the list, and then tells the scroll handler which items are
    visible.  The range is computed from the scroll position before the event, and its
    end is one behind the item that the end of the viewport is found in, even if that is
    the end of the list. -/

namespace Gpui

variable {X F : Type} [Field X] [LinearOrder X]

/-! ## Section 1: Seeks and finds -/

section Seeks

variable {items : SumTree (ListItem X F) (ListItemSummary X)}

section

omit [LinearOrder X]

theorem SumTree.WellFormed.summary_height (wf : items.WellFormed) :
    items.summary.height = totalHeight items.toList := by
  rcases wf with rfl | ⟨h, -, wf⟩
  · rfl
  · have hsum : Summary.addSummary Summary.zero (itemsSum items.toList) =
        measure (ListItemSummary X) items.toList :=
      addSummary_itemsSum (Summary.zero : ListItemSummary X) wf.toList_ne_nil
    rw [wf.summary_eq, ← measure_summary_height, ← hsum, LawfulSummary.zero_add]

/-- Where a count is found. -/
theorem ListTree.seekCount_of_ok (wf : items.WellFormed) {count : Nat}
    {c : Cursor (ListItem X F) (ListItemSummary X) (ListItemSummary X)} {found : Bool}
    (h : (Cursor.new items).seek (Count.targetSummary count) .right = .ok (c, found)) :
    c.At Measured items (items.toList.take count) (items.toList.drop count) ∧
      c.start.toPosition = ⟨min count items.toList.length, totalHeight (items.toList.take count)⟩ := by
  obtain ⟨mid, after, stopped, -⟩ := (Cursor.seek_spec Tracks.measured wf rfl).of_ok h
  have hmid : items.toList.take count = mid := by
    rw [← stopped.mid_eq (Count.monotone_targetSummary _ _), measure_nil,
      Count.reachedFrom_targetSummary]
  have hsplit := stopped.split
  have hpos : c.At Measured items mid after := stopped.pos
  rw [← hmid] at hsplit hpos
  have hafter : items.toList.drop count = after :=
    List.append_cancel_left ((List.take_append_drop _ _).trans hsplit)
  refine ⟨hafter ▸ hpos, ?_⟩
  have hposition : c.position = measure (ListItemSummary X) (items.toList.take count) :=
    hpos.position
  unfold Cursor.start ListItemSummary.toPosition
  rw [hposition, measure_summary_count, measure_summary_height, List.length_take]

/-- `find` shows where a list is sought to. -/
theorem find_toPosition {target : SeekTarget (ListItemSummary X)} {bias : Bias}
    (reaches : ListPosition X → Bool)
    (hreaches : ∀ summary, reached target bias summary = reaches summary.toPosition)
    (mono : MonotoneTarget target items.toList) (wf : items.WellFormed) :
    (items.find target bias).1.toPosition = seekItems reaches ⟨0, 0⟩ items.toList := by
  obtain ⟨before, after, finds⟩ := wf.finds (LawfulSummary.zero_add _) target bias
  have hseek := seekItems_eq_measureFrom reaches hreaches (Dimension.zero (ListItemSummary X))
    items.toList
  rw [finds.before_eq mono] at hseek
  rw [finds.find]
  exact hseek.symm

/-- A count is found at the end of the items, if there are not so many. -/
theorem seekCount_min (items : List (ListItem X F)) (count : Nat) :
    seekCount items count = ⟨min count items.length, totalHeight (items.take count)⟩ := by
  have hseek := seekItems_eq_measureFrom (fun position => position.count ≤ count)
    (Count.reached_targetSummary (X := X) count) (Dimension.zero (ListItemSummary X)) items
  rw [Count.reachedFrom_targetSummary] at hseek
  refine hseek.trans ?_
  show (measure (ListItemSummary X) (items.take count)).toPosition = _
  unfold ListItemSummary.toPosition
  rw [measure_summary_count, measure_summary_height, List.length_take]

end

end Seeks

theorem totalHeight_take_lt [IsStrictOrderedRing X] {items : List (ListItem X F)}
    (hitems : ∀ item ∈ items, 0 < item.height) {i j : Nat} (hij : i < j) (hi : i < items.length) :
    totalHeight (items.take i) < totalHeight (items.take j) := by
  have hitem : items[i]? = some items[i] := List.getElem?_eq_getElem hi
  have hle := totalHeight_take_mono (fun item hmem => (hitems item hmem).le)
    (show i + 1 ≤ j by omega)
  rw [totalHeight_take_succ hitem] at hle
  have hpos := hitems items[i] (List.getElem_mem hi)
  linarith

/-! ## Section 2: The range -/

/-- The item that a height is found in with `Bias::Left`, from the item `first` on; or the
    end of the items. -/
structure FoundFrom (items : List (ListItem X F)) (first : Nat) (height : X) (k : Nat) :
    Prop where
  first_le : min first items.length ≤ k
  le_length : k ≤ items.length
  below : min first items.length < k → totalHeight (items.take k) < height
  inside : k < items.length → height ≤ totalHeight (items.take (k + 1))

variable {summary : ListItemSummary X} {k : Nat} {height : X}

section

omit [Field X] [LinearOrder X]

theorem ListItemSummary.count_of_toPosition (h : summary.toPosition = ⟨k, height⟩) :
    summary.count = k :=
  congrArg ListPosition.count h

theorem ListItemSummary.height_of_toPosition (h : summary.toPosition = ⟨k, height⟩) :
    summary.height = height :=
  congrArg ListPosition.height h

end

namespace ListTree

variable [IsStrictOrderedRing X] {items : SumTree (ListItem X F) (ListItemSummary X)}
  {height : X} {scrollTop : ListOffset X}

/-- The range starts at the item of the scroll position, and ends behind the item that the
    end of the viewport is found in. -/
theorem visibleRange_of_ok (wf : items.WellFormed)
    (hitems : ∀ item ∈ items.toList, 0 ≤ item.height) {range : Nat × Nat}
    (h : visibleRange items height scrollTop = .ok range) :
    totalHeight (items.toList.take scrollTop.itemIx)
        ≤ pixelPosition items.toList scrollTop + height ∧
      ∃ k, range = (scrollTop.itemIx, k + 1) ∧ FoundFrom items.toList scrollTop.itemIx
        (pixelPosition items.toList scrollTop + height) k := by
  obtain ⟨⟨c, found⟩, hseek, h⟩ := Exec.bind_eq_ok.mp h
  obtain ⟨⟨c', found'⟩, hforward, h⟩ := Exec.bind_eq_ok.mp h
  obtain ⟨hat, hstart⟩ := seekCount_of_ok wf hseek
  have hheight : c.start.height = totalHeight (items.toList.take scrollTop.itemIx) :=
    ListItemSummary.height_of_toPosition hstart
  rw [hheight] at hforward
  obtain ⟨goal, hgoal⟩ : ∃ goal, pixelPosition items.toList scrollTop + height = goal := ⟨_, rfl⟩
  rw [show totalHeight (items.toList.take scrollTop.itemIx) + scrollTop.offsetInItem + height
    = goal from hgoal] at hforward
  rw [hgoal]
  -- a cursor does not go back
  have habove : totalHeight (items.toList.take scrollTop.itemIx) ≤ goal := by
    by_contra hbehind
    have hlt : Height.targetSummary goal c.position = .lt :=
      (cmp_eq_lt_iff _ _).mpr (hheight ▸ not_le.mp hbehind)
    rw [Cursor.seekForward_of_lt hlt] at hforward
    cases hforward
  refine ⟨habove, ?_⟩
  obtain ⟨mid, after, stopped, -⟩ :=
    (Cursor.seekForward_spec Tracks.measured wf (.inr hat)).of_ok hforward
  have hend := stopped_toPosition (fun position => position.height < goal)
    (Height.reached_targetSummary_left goal) (Height.monotone_targetSummary goal hitems) stopped
  rw [← show c.position = measure (ListItemSummary X) _ from hat.position,
    show c.position.toPosition = c.start.toPosition from rfl, hstart] at hend
  obtain ⟨first, hfirst⟩ : ∃ first, min scrollTop.itemIx items.toList.length = first := ⟨_, rfl⟩
  have htake : items.toList.take scrollTop.itemIx = items.toList.take first := by
    rw [← hfirst, List.take_eq_take_iff]
    omega
  have hdrop : items.toList.drop scrollTop.itemIx = items.toList.drop first := by
    rw [← hfirst, List.drop_eq_drop_iff]
    omega
  obtain ⟨k, hsought, hle, hlen, hlast, hnext⟩ := seekItems_spec items.toList
    (fun position => position.height < goal) rfl (show first ≤ items.toList.length by omega)
  rw [hfirst, htake, hdrop, hsought] at hend
  refine ⟨k, ?_, hfirst ▸ hle, hlen, fun hlt => ?_, fun hlt => ?_⟩
  · cases h
    rw [show c'.start.count = k from ListItemSummary.count_of_toPosition hend]
  · simpa using hlast (hfirst ▸ hlt)
  · have hitem : items.toList[k]? = some items.toList[k] := List.getElem?_eq_getElem hlt
    rw [totalHeight_take_succ hitem]
    simpa using hnext _ hitem

omit [IsStrictOrderedRing X] in
/-- There is a range, unless the viewport ends above its first item. -/
theorem visibleRange_returns (wf : items.WellFormed) (hheight : items.height ≤ 15)
    (habove : totalHeight (items.toList.take scrollTop.itemIx)
      ≤ pixelPosition items.toList scrollTop + height) :
    ∃ range, visibleRange items height scrollTop = .ok range := by
  obtain ⟨c, found, mid, after, hseek, -, -⟩ :=
    Cursor.seek_returns (Count.targetSummary scrollTop.itemIx) .right wf hheight
      (c := .new items) rfl (Count.targetSummary_zero _)
  obtain ⟨hat, hstart⟩ := seekCount_of_ok wf hseek
  have hheight' : c.position.height = totalHeight (items.toList.take scrollTop.itemIx) :=
    ListItemSummary.height_of_toPosition hstart
  obtain ⟨c', found', mid', after', hforward, -⟩ :=
    Cursor.seekForward_returns
      (Height.targetSummary (c.start.height + scrollTop.offsetInItem + height)) .left wf hheight
      (.inr hat) (by
        intro hlt
        have hbehind := (cmp_eq_lt_iff _ _).mp hlt
        rw [hheight', show c.start.height = c.position.height from rfl, hheight'] at hbehind
        exact absurd habove (not_le.mpr hbehind))
  unfold visibleRange
  simp only [hseek, hforward, Exec.ok_bind]
  exact ⟨_, rfl⟩

omit [IsStrictOrderedRing X] in
variable (height) in
/-- In a deep tree there is none for a scroll position at an item. -/
theorem visibleRange_deep (wf : items.WellFormed) (hdeep : 16 ≤ items.height)
    (hitemIx : scrollTop.itemIx < items.toList.length) :
    ∃ e, visibleRange items height scrollTop = .error e := by
  obtain ⟨e, he⟩ := Cursor.seek_deep (Count.targetSummary (X := X) scrollTop.itemIx) .right wf hdeep
    (by
      rw [Count.reached_targetSummary]
      show decide ((measure (ListItemSummary X) items.toList).count ≤ scrollTop.itemIx) = false
      rw [measure_summary_count]
      simpa using hitemIx)
  refine ⟨e, ?_⟩
  simp only [visibleRange, he]
  rfl

/-! ## Section 3: The position after the event -/

variable {state : ListTree X F}

/-- The pixel position at which the viewport shows the list.  Without a scroll position
    that is the start, or the end if the list is aligned there. -/
def viewportTop (state : ListTree X F) (height : X) : X :=
  match state.logicalScrollTop with
  | some scrollTop => pixelPosition state.items.toList scrollTop
  | none =>
      match state.alignment with
      | .top    => 0
      | .bottom => state.scrollMax height

/-- The position `position`, moved by a scroll event within the list. -/
def movedPosition (items : List (ListItem X F)) (position height : X) (delta : Point X) : X :=
  min (max (position - delta.y) 0) (max (totalHeight items - height) 0)

omit [LinearOrder X] [IsStrictOrderedRing X] in
theorem scrollTop_eq (wf : state.items.WellFormed) (scrollTop : ListOffset X) :
    state.scrollTop scrollTop = pixelPosition state.items.toList scrollTop := by
  have hfind := find_toPosition (fun position => position.count ≤ scrollTop.itemIx)
    (Count.reached_targetSummary _) (Count.monotone_targetSummary _ _) wf
  rw [show seekItems _ ⟨0, 0⟩ state.items.toList = seekCount state.items.toList scrollTop.itemIx
    from rfl, seekCount_min] at hfind
  exact congrArg (· + scrollTop.offsetInItem) (ListItemSummary.height_of_toPosition hfind)

section

omit [IsStrictOrderedRing X]

theorem newScrollTop_eq (wf : state.items.WellFormed)
    (hpadding : ∀ padding, state.lastPadding = some padding →
      padding.top = 0 ∧ padding.bottom = 0)
    (scrollTop : ListOffset X) (height : X) (delta : Point X) :
    state.scrollMax height = max (totalHeight state.items.toList - height) 0 ∧
      state.newScrollTop scrollTop height delta = movedPosition state.items.toList
        (pixelPosition state.items.toList scrollTop) height delta := by
  have hmax : state.scrollMax height = max (totalHeight state.items.toList - height) 0 := by
    unfold scrollMax
    cases hlast : state.lastPadding with
    | none => simp [wf.summary_height]
    | some padding =>
      obtain ⟨htop, hbottom⟩ := hpadding padding hlast
      simp [wf.summary_height, htop, hbottom]
  refine ⟨hmax, ?_⟩
  unfold newScrollTop movedPosition
  rw [scrollTop_eq wf, hmax]

/-- A height that is found in the list is a pixel position of it. -/
theorem pixelPosition_find (wf : state.items.WellFormed)
    (mono : ∀ height : X, MonotoneTarget (Height.targetSummary height) state.items.toList)
    (height : X) :
    let start := (state.items.find (D := ListItemSummary X) (Height.targetSummary height) .right).1
    pixelPosition state.items.toList ⟨start.count, height - start.height⟩ = height := by
  intro start
  have hfind := find_toPosition (fun position => position.height ≤ height)
    (Height.reached_targetSummary height) (mono height) wf
  obtain ⟨k, hsought, -, -, -, -⟩ := seekItems_spec state.items.toList
    (fun position => position.height ≤ height) rfl (Nat.zero_le _)
  rw [seekItems_start, hsought] at hfind
  have hcount : start.count = k := ListItemSummary.count_of_toPosition hfind
  have hheight : start.height = totalHeight (state.items.toList.take k) :=
    ListItemSummary.height_of_toPosition hfind
  unfold pixelPosition
  rw [hcount, hheight, add_sub_cancel]

end

/-- What a scroll event leaves: the items as they are, and the viewport at a position. -/
structure MovedTo (state : ListTree X F) (position height : X) (state' : ListTree X F) :
    Prop where
  items : state'.items = state.items
  viewport : state'.viewportTop height = position

section

omit [IsStrictOrderedRing X]

variable {state' : ListTree X F} {delta : Point X}

theorem moveTo_of_ok (wf : state.items.WellFormed)
    (mono : ∀ height : X, MonotoneTarget (Height.targetSummary height) state.items.toList)
    {position : X} (h : state.moveTo position height = .ok state') :
    MovedTo state position height state' := by
  unfold moveTo at h
  split at h
  · next hend =>
    cases h
    refine ⟨rfl, ?_⟩
    unfold viewportTop
    dsimp only
    rw [hend.1, hend.2]
    rfl
  · obtain ⟨rebased, hrebase, h⟩ := Exec.bind_eq_ok.mp h
    have hitems := rebasePendingScroll_items hrebase
    cases h
    refine ⟨hitems, ?_⟩
    unfold viewportTop
    dsimp only
    rw [hitems]
    exact pixelPosition_find wf mono position

theorem moveTo_returns (wf : state.items.WellFormed) (hheight : state.items.height ≤ 15)
    (position height : X) : ∃ state', state.moveTo position height = .ok state' := by
  unfold moveTo
  split
  · exact ⟨_, rfl⟩
  · have hrebase := rebaseTo_refines wf hheight
      ⟨(state.items.find (D := ListItemSummary X) (Height.targetSummary position) .right).1.count,
        position - (state.items.find (D := ListItemSummary X)
          (Height.targetSummary position) .right).1.height⟩
    obtain ⟨state', hset, -⟩ := Exec.map_eq_ok.mp hrebase
    exact ⟨state', hset⟩

/-- The handler is told the range of the position before the event. -/
theorem scroll_of_ok (hreset : state.reset = false) {event : Option ListScrollEvent}
    (h : state.scroll true scrollTop height delta = .ok (state', event)) :
    ∃ moved range, state.moveTo (state.newScrollTop scrollTop height delta) height = .ok moved ∧
      state'.items = moved.items ∧ state'.viewportTop height = moved.viewportTop height ∧
      visibleRange moved.items height scrollTop = .ok range ∧
      event = some (state'.scrollEvent range) := by
  unfold scroll at h
  rw [hreset, if_neg (by simp)] at h
  obtain ⟨moved, hmoved, h⟩ := Exec.bind_eq_ok.mp h
  obtain ⟨range, hrange, h⟩ := Exec.bind_eq_ok.mp h
  cases h
  exact ⟨moved, range, hmoved, rfl, rfl, hrange, rfl⟩

theorem scroll_returns (hreset : state.reset = false) {moved : ListTree X F} {range : Nat × Nat}
    (hmoved : state.moveTo (state.newScrollTop scrollTop height delta) height = .ok moved)
    (hrange : visibleRange moved.items height scrollTop = .ok range) :
    ∃ state', state.scroll true scrollTop height delta =
        .ok (state', some (state'.scrollEvent range)) ∧
      state'.items = moved.items ∧ state'.viewportTop height = moved.viewportTop height := by
  unfold scroll
  rw [hreset, if_neg (by simp)]
  simp only [hmoved, hrange, Exec.ok_bind]
  exact ⟨_, rfl, rfl, rfl⟩

end

end ListTree

/-! ## Section 4: The visible items -/

/-- A part of the item is in the viewport. -/
def Visible (items : List (ListItem X F)) (position height : X) (ix : Nat) : Prop :=
  ∃ y, totalHeight (items.take ix) ≤ y ∧ y < totalHeight (items.take (ix + 1)) ∧
    position ≤ y ∧ y < position + height

/-- The viewport shows the same items before and after it is moved: it still starts in the
    item `first`, and the item that its end was found in is one of the list, and still the
    last one that it shows. -/
structure ShowsSame (items : List (ListItem X F)) (first : Nat) (before after height : X) :
    Prop where
  positive : 0 < height
  first_le : totalHeight (items.take first) ≤ after
  lt_next : after < totalHeight (items.take (first + 1))
  above : totalHeight (items.take first) ≤ before + height
  last : ∃ k, FoundFrom items first (before + height) k ∧ k < items.length ∧
    totalHeight (items.take k) < after + height ∧
    (k + 1 < items.length → after + height ≤ totalHeight (items.take (k + 1)))

section Ranges

variable [IsStrictOrderedRing X] {items : List (ListItem X F)} {position height : X}

theorem visible_iff (hitems : ∀ item ∈ items, 0 < item.height) {ix : Nat}
    (hix : ix < items.length) : Visible items position height ix ↔
      0 < height ∧ totalHeight (items.take ix) < position + height ∧
        position < totalHeight (items.take (ix + 1)) := by
  constructor
  · rintro ⟨y, htop, hbottom, hfirst, hlast⟩
    exact ⟨by linarith, htop.trans_lt hlast, hfirst.trans_lt hbottom⟩
  · rintro ⟨hpositive, hlast, hfirst⟩
    have hlt := totalHeight_take_lt hitems (Nat.lt_succ_self ix) hix
    -- the first line of the item in the viewport
    refine ⟨max (totalHeight (items.take ix)) position, le_max_left _ _, max_lt hlt hfirst,
      le_max_right _ _, max_lt hlast ?_⟩
    linarith

omit [IsStrictOrderedRing X] in
theorem FoundFrom.first_le_of_lt {first k : Nat} (h : FoundFrom items first height k)
    (hk : k < items.length) : first ≤ k := by
  have hle := h.first_le
  omega

theorem FoundFrom.unique (hitems : ∀ item ∈ items, 0 < item.height) {first k k' : Nat}
    (h : FoundFrom items first height k) (h' : FoundFrom items first height k') : k = k' := by
  have hnot : ∀ {k k' : Nat}, FoundFrom items first height k → FoundFrom items first height k' →
      ¬ k < k' := by
    intro k k' h h' hlt
    have hfirst := h.first_le
    have hlen := h'.le_length
    have hbelow := h'.below (by omega)
    have hinside := h.inside (by omega)
    have hmono := totalHeight_take_mono (fun item hmem => (hitems item hmem).le)
      (show k + 1 ≤ k' by omega)
    exact absurd hbelow (not_lt.mpr (hinside.trans hmono))
  exact Nat.le_antisymm (Nat.le_of_not_lt (hnot h' h)) (Nat.le_of_not_lt (hnot h h'))

/-- When a range of items is that of the visible ones. -/
theorem range_visible_iff (hitems : ∀ item ∈ items, 0 < item.height) (hposition : 0 ≤ position)
    {first k : Nat} (hfirst : k < items.length → first ≤ k) :
    ((∀ ix, first ≤ ix ∧ ix < k + 1 ↔ ix < items.length ∧ Visible items position height ix) ∧
      k + 1 ≤ items.length) ↔
    k < items.length ∧ 0 < height ∧ totalHeight (items.take first) ≤ position ∧
      position < totalHeight (items.take (first + 1)) ∧
      totalHeight (items.take k) < position + height ∧
      (k + 1 < items.length → position + height ≤ totalHeight (items.take (k + 1))) := by
  have hmono := fun {i j : Nat} (hij : i ≤ j) =>
    totalHeight_take_mono (fun item hmem => (hitems item hmem).le) hij
  constructor
  · rintro ⟨hrange, hlen⟩
    have hk : k < items.length := hlen
    have hle := hfirst hk
    obtain ⟨_, hvisible⟩ := (hrange first).mp ⟨le_refl _, by omega⟩
    obtain ⟨hpositive, hstart, hnext⟩ := (visible_iff hitems (by omega)).mp hvisible
    obtain ⟨_, hvisible'⟩ := (hrange k).mp ⟨hle, by omega⟩
    obtain ⟨_, hlast, hbottom⟩ := (visible_iff hitems hk).mp hvisible'
    refine ⟨hk, hpositive, ?_, hnext, hlast, fun hmore => ?_⟩
    · -- else the item before the first would be visible
      by_contra hbefore
      rw [not_le] at hbefore
      cases first with
      | zero => exact absurd (hbefore.trans_le' hposition) (by simp [totalHeight])
      | succ first =>
        have hlt := totalHeight_take_lt hitems (Nat.lt_succ_self first) (by omega)
        have := (hrange first).mpr ⟨by omega,
          (visible_iff hitems (by omega)).mpr ⟨hpositive, hlt.trans hstart, hbefore⟩⟩
        omega
    · -- else the item behind the last would be
      by_contra hbehind
      rw [not_le] at hbehind
      have := (hrange (k + 1)).mpr ⟨hmore, (visible_iff hitems hmore).mpr
        ⟨hpositive, hbehind, hbottom.trans_le (hmono (Nat.le_succ _))⟩⟩
      omega
  · rintro ⟨hk, hpositive, htop, hnext, hlast, hend⟩
    refine ⟨fun ix => ?_, hk⟩
    constructor
    · rintro ⟨hge, hlt⟩
      have hix : ix < items.length := by omega
      exact ⟨hix, (visible_iff hitems hix).mpr ⟨hpositive,
        (hmono (show ix ≤ k by omega)).trans_lt hlast,
        hnext.trans_le (hmono (show first + 1 ≤ ix + 1 by omega))⟩⟩
    · rintro ⟨hix, hvisible⟩
      obtain ⟨_, hstart, hbottom⟩ := (visible_iff hitems hix).mp hvisible
      constructor
      · by_contra hbefore
        have := hmono (show ix + 1 ≤ first by omega)
        linarith
      · by_contra hbehind
        have := hmono (show k + 1 ≤ ix by omega)
        have := hend (by omega)
        linarith

end Ranges

/-! ## Section 5: What is reported -/

namespace ListTree

variable [IsStrictOrderedRing X] {state : ListTree X F}

/-- A range is that of the items that the viewport shows. -/
structure Reports (state : ListTree X F) (height : X) (range : Nat × Nat) : Prop where
  visible : ∀ ix, range.1 ≤ ix ∧ ix < range.2 ↔ ix < state.items.toList.length ∧
    Visible state.items.toList (state.viewportTop height) height ix
  within : range.2 ≤ state.items.toList.length

end ListTree

end Gpui
