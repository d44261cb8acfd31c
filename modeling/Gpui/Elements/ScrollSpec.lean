import Gpui.Elements.ListTreeSpec

/-! # Scrolling a list

    A scroll position is an item and an offset into it; its pixel position is the height
    of all items before it and that offset.  `scroll_by` moves the pixel position by
    seeking a count, then a height, and takes the item that it lands in. -/

namespace Gpui

open List

open Exec (ok_bind bind_eq_ok)

variable {X F : Type} [Field X] [LinearOrder X] {target : SeekTarget (ListItemSummary X)}
  {bias : Bias}

/-! ## Seeks in the list -/

section Seeks

variable {items : List (ListItem X F)}

omit [LinearOrder X] in
theorem totalHeight_take_succ {k : Nat} {item : ListItem X F} (hitem : items[k]? = some item) :
    totalHeight (items.take (k + 1)) = totalHeight (items.take k) + item.height := by
  rw [List.take_add_one, hitem, totalHeight, totalHeight, List.map_append, List.sum_append]
  simp

section

omit [LinearOrder X]

variable (items) in
/-- A seek goes from one item to the next, as long as the target is in reach. -/
theorem seekItems_spec (reaches : ListPosition X → Bool) : ∀ {n k : Nat},
    n = items.length - k → k ≤ items.length →
    ∃ k', seekItems reaches ⟨k, totalHeight (items.take k)⟩ (items.drop k) =
        ⟨k', totalHeight (items.take k')⟩ ∧ k ≤ k' ∧ k' ≤ items.length ∧
      (k < k' → reaches ⟨k', totalHeight (items.take k')⟩ = true) ∧
      ∀ item, items[k']? = some item →
        reaches ⟨k' + 1, totalHeight (items.take k') + item.height⟩ = false := by
  intro n
  induction n with
  | zero =>
    intro k hn hk
    have hend : items.drop k = [] := drop_eq_nil_of_le (by omega)
    refine ⟨k, by rw [hend, seekItems], Nat.le_refl k, hk, fun h => absurd h (Nat.lt_irrefl k), ?_⟩
    intro item hitem
    have := (List.getElem?_eq_some_iff.mp hitem).1
    omega
  | succ n ih =>
    intro k hn hk
    obtain ⟨item, hitem⟩ : ∃ item, items[k]? = some item :=
      ⟨_, getElem?_eq_getElem (by omega)⟩
    have hdrop : items.drop k = item :: items.drop (k + 1) := by
      obtain ⟨hlt, rfl⟩ := List.getElem?_eq_some_iff.mp hitem
      exact drop_eq_getElem_cons hlt
    rw [hdrop, seekItems]
    dsimp only
    by_cases hreach : reaches ⟨k + 1, totalHeight (items.take k) + item.height⟩ = true
    · rw [if_pos hreach, ← totalHeight_take_succ hitem]
      obtain ⟨k', hseek, hle, hlen, hlast, hnext⟩ := ih (k := k + 1) (by omega) (by omega)
      refine ⟨k', hseek, by omega, hlen, fun _ => ?_, hnext⟩
      rcases Nat.lt_or_ge (k + 1) k' with hlt | hge
      · exact hlast hlt
      · obtain rfl : k' = k + 1 := by omega
        rwa [totalHeight_take_succ hitem]
    · rw [if_neg hreach]
      refine ⟨k, rfl, Nat.le_refl k, hk, fun h => absurd h (Nat.lt_irrefl k), ?_⟩
      intro other hother
      obtain rfl : item = other := Option.some.inj (hitem.symm.trans hother)
      simpa using hreach

theorem seekItems_start (reaches : ListPosition X → Bool) (items : List (ListItem X F)) :
    seekItems reaches ⟨0, 0⟩ items =
      seekItems reaches ⟨0, totalHeight (items.take 0)⟩ (items.drop 0) := by
  simp [totalHeight]

/-- A count is sought among the items. -/
theorem seekCount_eq {count : Nat} (hcount : count ≤ items.length) :
    seekCount items count = ⟨count, totalHeight (items.take count)⟩ := by
  obtain ⟨k, hseek, -, hlen, hlast, hnext⟩ :=
    seekItems_spec items (fun position => position.count ≤ count) rfl (Nat.zero_le _)
  have hle : k ≤ count := by
    rcases Nat.eq_zero_or_pos k with rfl | hpos
    · exact Nat.zero_le count
    · simpa using hlast hpos
  have hge : count ≤ k := by
    by_contra hlt
    have hnot := hnext items[k] (getElem?_eq_getElem (by omega))
    simp only [decide_eq_false_iff_not] at hnot
    omega
  obtain rfl : k = count := Nat.le_antisymm hle hge
  rw [seekCount, seekItems_start]
  exact hseek

end

/-- A height is sought from an item on that starts above it. -/
theorem seekHeight_spec {height : X} {k : Nat} (hk : k ≤ items.length)
    (habove : totalHeight (items.take k) ≤ height) :
    ∃ k', seekItems (fun position => position.height ≤ height)
        ⟨k, totalHeight (items.take k)⟩ (items.drop k) = ⟨k', totalHeight (items.take k')⟩ ∧
      k' ≤ items.length ∧ totalHeight (items.take k') ≤ height ∧
      ∀ item, items[k']? = some item → height < totalHeight (items.take k') + item.height := by
  obtain ⟨k', hseek, hle, hlen, hlast, hnext⟩ :=
    seekItems_spec items (fun position => position.height ≤ height) rfl hk
  refine ⟨k', hseek, hlen, ?_, fun item hitem => ?_⟩
  · rcases Nat.eq_or_lt_of_le hle with rfl | hlt
    · exact habove
    · simpa using hlast hlt
  · simpa using hnext item hitem

end Seeks

/-! ## Pixel positions -/

/-- The height of all earlier items and the offset. -/
def pixelPosition (items : List (ListItem X F)) (scrollTop : ListOffset X) : X :=
  totalHeight (items.take scrollTop.itemIx) + scrollTop.offsetInItem

/-- What is expected of a scroll: the pixel position moves, but not above the list, and
    the offset is within the item unless that is the end of the list. -/
structure Scrolled (items : List (ListItem X F)) (distance : X)
    (before after : ListOffset X) : Prop where
  position : pixelPosition items after = max 0 (pixelPosition items before + distance)
  itemIx_le : after.itemIx ≤ items.length
  nonneg : 0 ≤ after.offsetInItem
  inside : ∀ item, items[after.itemIx]? = some item → after.offsetInItem < item.height

section Scroll

variable [IsStrictOrderedRing X] {state : StateInner X F} {distance : X}

omit [IsStrictOrderedRing X] in
theorem StateInner.items_rebaseTo (state : StateInner X F) (scrollTop : ListOffset X) :
    (state.rebaseTo scrollTop).items = state.items := by
  show (state.rebasePendingScroll scrollTop).items = state.items
  unfold StateInner.rebasePendingScroll
  split
  · rfl
  · split
    · rfl
    · split
      · rfl
      · rfl

/-- **Scrolling by pixels** in a plain list. -/
theorem ListState.scrollBy_ok (hdistance : distance ≠ 0)
    (hitemIx : state.getLogicalScrollTop.itemIx ≤ state.items.length)
    (hoffset : 0 ≤ state.getLogicalScrollTop.offsetInItem) :
    ∃ state' scrollTop, ListState.scrollBy state distance = .ok state' ∧
      state'.items = state.items ∧ state'.logicalScrollTop = some scrollTop ∧
      Scrolled state.items distance state.getLogicalScrollTop scrollTop := by
  obtain ⟨stopped, hstopped, hitems⟩ : ∃ stopped, (if distance < 0 then
      { state with followState := state.followState.stopFollowing } else state) = stopped ∧
      stopped.items = state.items := by
    refine ⟨_, rfl, ?_⟩
    split
    · rfl
    · rfl
  unfold ListState.scrollBy
  rw [if_neg hdistance]
  dsimp only
  rw [hstopped, hitems, seekCount_eq hitemIx]
  generalize state.getLogicalScrollTop = before at hitemIx hoffset ⊢
  have hstart : totalHeight (state.items.take before.itemIx) ≤ pixelPosition state.items before :=
    le_add_of_nonneg_right hoffset
  rw [show totalHeight (state.items.take before.itemIx) + before.offsetInItem =
    pixelPosition state.items before from rfl]
  obtain ⟨target, htarget⟩ :
      ∃ target, max (pixelPosition state.items before + distance) 0 = target := ⟨_, rfl⟩
  have hnonneg : 0 ≤ target := htarget ▸ le_max_right _ _
  rw [htarget]
  -- going forward the cursor stands above the target
  rw [if_neg (fun h => lt_asymm (hstart.trans_lt h.1) h.2)]
  have hfound : ∃ k, (if pixelPosition state.items before < target then
        seekItems (fun position => position.height ≤ target)
          ⟨before.itemIx, totalHeight (state.items.take before.itemIx)⟩
          (state.items.drop before.itemIx)
      else seekHeightRight state.items target) = ⟨k, totalHeight (state.items.take k)⟩ ∧
      k ≤ state.items.length ∧ totalHeight (state.items.take k) ≤ target ∧
      ∀ item, state.items[k]? = some item →
        target < totalHeight (state.items.take k) + item.height := by
    split
    · next hforward => exact seekHeight_spec hitemIx (hstart.trans hforward.le)
    · rw [seekHeightRight, seekItems_start]
      exact seekHeight_spec (Nat.zero_le _) (by simpa [totalHeight] using hnonneg)
  obtain ⟨k, hseek, hlen, habove, hinside⟩ := hfound
  rw [hseek]
  refine ⟨_, ⟨k, target - totalHeight (state.items.take k)⟩, rfl,
    (StateInner.items_rebaseTo _ _).trans hitems, rfl, ?_, hlen, sub_nonneg.mpr habove, ?_⟩
  · rw [pixelPosition, add_sub_cancel, max_comm, htarget]
  · exact fun item hitem => sub_lt_iff_lt_add'.mpr (hinside item hitem)

end Scroll

/-! ## Seeks in the tree -/

/-- Where a cursor with this summary before it stands. -/
def ListItemSummary.toPosition (summary : ListItemSummary X) : ListPosition X :=
  ⟨summary.count, summary.height⟩

omit [LinearOrder X] in
/-- A seek in the list passes the items in reach. -/
theorem seekItems_eq_measureFrom (reaches : ListPosition X → Bool)
    (hreaches : ∀ summary, reached target bias summary = reaches summary.toPosition)
    (d : ListItemSummary X) (items : List (ListItem X F)) :
    seekItems reaches d.toPosition items =
      (measureFrom d (reachedFrom target bias d items)).toPosition := by
  induction items generalizing d with
  | nil => rw [seekItems, reachedFrom, measureFrom_nil]
  | cons item items ih =>
    have hnext : (⟨d.toPosition.count + 1, d.toPosition.height + item.height⟩ : ListPosition X) =
        (Dimension.addSummary d (Item.summary item) : ListItemSummary X).toPosition := by
      show _ = (⟨d.count + (Item.summary item : ListItemSummary X).count,
        d.height + (Item.summary item : ListItemSummary X).height⟩ : ListPosition X)
      rw [ListItem.summary_count, ListItem.summary_height]
      rfl
    rw [seekItems, reachedFrom, hreaches, hnext]
    split
    · rw [ih, measureFrom_cons]
    · rw [measureFrom_nil]

section Tree

variable {items : SumTree (ListItem X F) (ListItemSummary X)}
  {c : Cursor (ListItem X F) (ListItemSummary X) (ListItemSummary X)}
  {before ahead mid after : List (ListItem X F)}

section

variable (reaches : ListPosition X → Bool)
  (hreaches : ∀ summary, reached target bias summary = reaches summary.toPosition)
  (mono : MonotoneTarget target items.toList)
include hreaches mono

section

omit [LinearOrder X]

/-- So a cursor that stopped shows the position that the list is sought to. -/
theorem stopped_toPosition (stopped : c.Stopped Measured target bias items before ahead mid after) :
    c.start.toPosition =
      seekItems reaches (measure (ListItemSummary X) before).toPosition ahead := by
  have hposition : c.position = measure (ListItemSummary X) (before ++ mid) := stopped.pos.position
  rw [seekItems_eq_measureFrom reaches hreaches, stopped.mid_eq mono, ← measure_append, ← hposition]
  rfl

/-- A seek from the start, in the tree and in the list. -/
theorem seek_toPosition (wf : items.WellFormed) (hheight : items.height ≤ 15)
    (htree : c.tree = items) (hzero : target (Dimension.zero (ListItemSummary X)) ≠ .lt) :
    ∃ c' found before after, c.seek target bias = .ok (c', found) ∧
      c'.At Measured items before after ∧
      c'.start.toPosition = seekItems reaches ⟨0, 0⟩ items.toList := by
  obtain ⟨c', found, mid, after, hseek, stopped, -⟩ :=
    Cursor.seek_returns target bias wf hheight htree hzero
  exact ⟨c', found, mid, after, hseek, stopped.pos, stopped_toPosition reaches hreaches mono stopped⟩

end

end

section

omit [LinearOrder X]

theorem Count.monotone_targetSummary (count : Nat) (items : List (ListItem X F)) :
    MonotoneTarget (Count.targetSummary (X := X) count) items :=
  monotone_count measure_summary_count count items

theorem Count.targetSummary_zero (count : Nat) :
    Count.targetSummary count (Dimension.zero (ListItemSummary X) : ListItemSummary X) ≠ .lt :=
  fun h => absurd ((cmp_eq_lt_iff _ _).mp h) (Nat.not_lt.mpr (Nat.zero_le _))

theorem Count.reachedFrom_targetSummary (count : Nat) (items : List (ListItem X F)) :
    reachedFrom (Count.targetSummary (X := X) count) .right
      (Dimension.zero (ListItemSummary X)) items = items.take count :=
  reachedFrom_count (fun d item => congrArg (d.count + ·) item.summary_count) count _ items

end

theorem Height.monotone_targetSummary [IsStrictOrderedRing X] (height : X)
    {items : List (ListItem X F)} (hitems : ∀ item ∈ items, 0 ≤ item.height) :
    MonotoneTarget (Height.targetSummary height) items := by
  intro p q r hsplit
  have hq : 0 ≤ totalHeight q := by
    refine sum_nonneg fun h hh => ?_
    obtain ⟨item, hitem, rfl⟩ := mem_map.mp hh
    exact hitems item (by simp [hsplit, hitem])
  have hle : totalHeight p ≤ totalHeight (p ++ q) := by
    rw [totalHeight, totalHeight, List.map_append, List.sum_append]
    exact le_add_of_nonneg_right hq
  simp only [Height.targetSummary, measure_summary_height, cmp_eq_gt_iff, cmp_eq_lt_iff]
  exact ⟨fun h => hle.trans_lt h, fun h => h.trans_le hle⟩

omit [Field X] [LinearOrder X] in
theorem Count.reached_targetSummary (count : Nat) (summary : ListItemSummary X) :
    reached (Count.targetSummary count) .right summary =
      decide (summary.toPosition.count ≤ count) :=
  reached_cmp_right count ListItemSummary.count summary

omit [Field X] in
theorem Height.reached_targetSummary (height : X) (summary : ListItemSummary X) :
    reached (Height.targetSummary height) .right summary =
      decide (summary.toPosition.height ≤ height) :=
  reached_cmp_right height ListItemSummary.height summary

variable {state : ListTree X F} {scrollTop : ListOffset X}

/-! ## The scroll of the tree -/

namespace ListTree

section

omit [LinearOrder X]

theorem getLogicalScrollTop_eq (wf : state.items.WellFormed) :
    state.getLogicalScrollTop = state.toInner.getLogicalScrollTop := by
  unfold getLogicalScrollTop StateInner.getLogicalScrollTop
  rw [wf.summary_count]
  rfl

/-- A cursor that sought a count shows the item with that index. -/
theorem seek_count (wf : items.WellFormed) (hheight : items.height ≤ 15) (count : Nat) :
    ∃ (c : Cursor (ListItem X F) (ListItemSummary X) Count) (found : Bool),
      (Cursor.new items).seek (Count.target count) .right = .ok (c, found) ∧
        c.item = .ok items.toList[count]? := by
  obtain ⟨c, found, mid, after, hseek, stopped, -⟩ :=
    Cursor.seek_returns (Count.target count) .right wf hheight (c := .new items) rfl
      (by simp [Count.target, cmp_eq_lt_iff, Dimension.zero])
  have hmid : items.toList.take count = mid := by
    rw [← stopped.mid_eq (Count.monotone_target count _), Count.reachedFrom_target]
    rfl
  have hsplit := stopped.split
  rw [← hmid] at hsplit
  have hafter : items.toList.drop count = after :=
    append_cancel_left ((take_append_drop _ _).trans hsplit)
  refine ⟨c, found, hseek, ?_⟩
  rw [stopped.pos.item_eq, ← hafter, head?_drop]

end

variable (scrollTop) in
/-- A pending adjustment is anchored as in the list. -/
theorem rebasePendingScroll_refines (wf : state.items.WellFormed)
    (hheight : state.items.height ≤ 15) :
    (state.rebasePendingScroll scrollTop).map toInner =
      .ok (state.toInner.rebasePendingScroll scrollTop) := by
  have hpending : state.toInner.pendingScroll = state.pendingScroll := rfl
  have hlist : state.toInner.items = state.items.toList := rfl
  unfold rebasePendingScroll StateInner.rebasePendingScroll
  rw [wf.summary_count, hpending, hlist]
  cases hp : state.pendingScroll with
  | none => rfl
  | some pending =>
    dsimp only
    by_cases hend : state.items.toList.length ≤ scrollTop.itemIx
    · rw [if_pos hend, if_pos hend]
      rfl
    · rw [if_neg hend, if_neg hend]
      cases pending with
      | absolute itemIx offset => rfl
      | proportional itemIx fraction =>
        obtain ⟨c, found, hseek, hitem⟩ := seek_count wf hheight scrollTop.itemIx
        simp only [hseek, hitem, ok_bind]
        rfl

/-- Setting the scroll position, with a pending adjustment anchored to it. -/
theorem rebaseTo_refines (wf : state.items.WellFormed) (hheight : state.items.height ≤ 15)
    (scrollTop : ListOffset X) :
    (do
      let state ← state.rebasePendingScroll scrollTop
      return { state with logicalScrollTop := some scrollTop } : Run (ListTree X F)).map toInner =
      .ok (state.toInner.rebaseTo scrollTop) := by
  have hrebase := rebasePendingScroll_refines scrollTop wf hheight
  cases hstate : state.rebasePendingScroll scrollTop with
  | error e =>
    rw [hstate] at hrebase
    cases hrebase
  | ok rebased =>
    rw [hstate] at hrebase
    rw [StateInner.rebaseTo, ← Except.ok.inj hrebase]
    rfl

/-- **The scroll of the tree refines that of the list**, for items of no negative height. -/
theorem scrollBy_refines [IsStrictOrderedRing X] (wf : state.items.WellFormed)
    (hheight : state.items.height ≤ 15)
    (hitems : ∀ item ∈ state.items.toList, 0 ≤ item.height) (distance : X) :
    (state.scrollBy distance).map toInner = ListState.scrollBy state.toInner distance := by
  unfold scrollBy ListState.scrollBy
  by_cases hzero : distance = 0
  · rw [if_pos hzero, if_pos hzero]
    rfl
  rw [if_neg hzero, if_neg hzero, getLogicalScrollTop_eq wf]
  obtain ⟨stopped, hstopped, hsame, hinner⟩ : ∃ stopped : ListTree X F,
      (if distance < 0 then { state with followState := state.followState.stopFollowing }
        else state) = stopped ∧ stopped.items = state.items ∧
      (if distance < 0 then
        { state.toInner with followState := state.toInner.followState.stopFollowing }
        else state.toInner) = stopped.toInner := by
    refine ⟨_, rfl, ?_⟩
    split
    · exact ⟨rfl, rfl⟩
    · exact ⟨rfl, rfl⟩
  rw [hstopped, hinner]
  generalize state.toInner.getLogicalScrollTop = currentOffset
  rw [← hsame] at wf hheight hitems
  have hlist : stopped.toInner.items = stopped.items.toList := rfl
  -- the item at the scroll position
  obtain ⟨c, found, before, after, hseek, hat, hstart⟩ :=
    seek_toPosition (fun position => position.count ≤ currentOffset.itemIx)
      (Count.reached_targetSummary _) (Count.monotone_targetSummary _ _) wf hheight
      (c := .new stopped.items) rfl
      (Count.targetSummary_zero _)
  have hposition : c.position = measure (ListItemSummary X) before := hat.position
  have hcount : c.start.toPosition.count = before.length := by
    rw [← measure_summary_count before, ← hposition]
    rfl
  have hafter : stopped.items.toList.drop before.length = after := by
    rw [← hat.items, drop_left]
  change c.start.toPosition = seekCount stopped.items.toList currentOffset.itemIx at hstart
  have hstartHeight : c.start.toPosition.height = c.start.height := rfl
  simp only [hlist, ← hstart, hseek, ok_bind, hcount, hafter, hstartHeight]
  obtain ⟨newPixelOffset, hnew⟩ : ∃ newPixelOffset,
      max (c.start.height + currentOffset.offsetInItem + distance) 0 = newPixelOffset := ⟨_, rfl⟩
  have hnonneg : 0 ≤ newPixelOffset := hnew ▸ le_max_right _ _
  have hmono := Height.monotone_targetSummary newPixelOffset hitems
  have hreaches := Height.reached_targetSummary newPixelOffset
  rw [hnew]
  by_cases hforward : c.start.height + currentOffset.offsetInItem < newPixelOffset
  · simp only [hforward, if_true, true_and]
    by_cases hbehind : newPixelOffset < c.start.height
    · have hlt : Height.targetSummary newPixelOffset c.position = .lt :=
        (cmp_eq_lt_iff _ _).mpr hbehind
      rw [if_pos hbehind, Cursor.seekForward_of_lt hlt]
      rfl
    · -- on from the item at the scroll position
      obtain ⟨c', found', mid, rest, hseek', stopped'⟩ :=
        Cursor.seekForward_returns (Height.targetSummary newPixelOffset) .right wf hheight
          (.inr hat) (fun h => hbehind ((cmp_eq_lt_iff _ _).mp h))
      have hend := stopped_toPosition (fun position => position.height ≤ newPixelOffset) hreaches
        hmono stopped'
      rw [← hposition] at hend
      rw [if_neg hbehind, hseek', show c.start.toPosition = c.position.toPosition from rfl, ← hend]
      exact rebaseTo_refines wf hheight _
  · -- once more from the start
    obtain ⟨c', found', before', after', hseek', -, hend⟩ :=
      seek_toPosition (fun position => position.height ≤ newPixelOffset) hreaches hmono wf hheight
        hat.tree (fun h => hnonneg.not_gt ((cmp_eq_lt_iff _ _).mp h))
    simp only [hforward, if_false, false_and, hseek', ok_bind]
    rw [seekHeightRight, ← hend]
    exact rebaseTo_refines wf hheight _

theorem rebasePendingScroll_items {state' : ListTree X F}
    (h : state.rebasePendingScroll scrollTop = .ok state') : state'.items = state.items := by
  unfold rebasePendingScroll at h
  split at h
  · cases h
    rfl
  · split at h
    · cases h
      rfl
    · split at h
      · cases h
        rfl
      · obtain ⟨⟨c, found⟩, -, h⟩ := bind_eq_ok.mp h
        obtain ⟨item, -, h⟩ := bind_eq_ok.mp h
        cases h
        rfl

/-- The tree of the items is only read. -/
theorem scrollBy_items {distance : X} {state' : ListTree X F}
    (h : state.scrollBy distance = .ok state') : state'.items = state.items := by
  unfold scrollBy at h
  split at h
  · cases h
    rfl
  · have hstopped : (if distance < 0 then
        { state with followState := state.followState.stopFollowing } else state).items =
        state.items := by
      split
      · rfl
      · rfl
    obtain ⟨⟨c, found⟩, -, h⟩ := bind_eq_ok.mp h
    dsimp only at h
    split at h
    all_goals
      obtain ⟨⟨c', found'⟩, -, h⟩ := bind_eq_ok.mp h
      obtain ⟨rebased, hrebase, h⟩ := bind_eq_ok.mp h
      cases h
      exact (rebasePendingScroll_items hrebase).trans hstopped

variable [IsStrictOrderedRing X]

/-- One scroll of the tree. -/
theorem scrollBy_ok (wf : state.items.WellFormed) (hheight : state.items.height ≤ 15)
    (hitems : ∀ item ∈ state.items.toList, 0 ≤ item.height)
    (hitemIx : state.getLogicalScrollTop.itemIx ≤ state.items.toList.length)
    (hoffset : 0 ≤ state.getLogicalScrollTop.offsetInItem) {distance : X}
    (hdistance : distance ≠ 0) :
    ∃ state' scrollTop, state.scrollBy distance = .ok state' ∧ state'.items = state.items ∧
      state'.logicalScrollTop = some scrollTop ∧
      Scrolled state.items.toList distance state.getLogicalScrollTop scrollTop := by
  rw [getLogicalScrollTop_eq wf] at hitemIx hoffset ⊢
  obtain ⟨inner, scrollTop, hscroll, -, htop, scrolled⟩ :=
    ListState.scrollBy_ok hdistance hitemIx hoffset
  rw [← scrollBy_refines wf hheight hitems distance] at hscroll
  cases hrun : state.scrollBy distance with
  | error e =>
    rw [hrun] at hscroll
    cases hscroll
  | ok state' =>
    rw [hrun] at hscroll
    cases hscroll
    exact ⟨state', scrollTop, rfl, scrollBy_items hrun, htop, scrolled⟩

omit [IsStrictOrderedRing X] in
/-- The scrollbar shows the pixel position. -/
theorem scrollPxOffset_eq (wf : state.items.WellFormed) (hheight : state.items.height ≤ 15)
    (htop : state.logicalScrollTop = some scrollTop) :
    state.scrollPxOffsetForScrollbar =
      .ok ⟨0, -pixelPosition state.items.toList scrollTop⟩ := by
  obtain ⟨c, summary, mid, after, hsummary, stopped, rfl⟩ :=
    Cursor.summary_returns (O := ListItemSummary X) (Count.targetSummary scrollTop.itemIx) .right wf
      hheight (c := .new state.items) (.inl ⟨rfl, rfl, rfl⟩)
      (Count.targetSummary_zero _)
  have hmid : state.items.toList.take scrollTop.itemIx = mid := by
    rw [← stopped.mid_eq (Count.monotone_targetSummary _ _), measure_nil,
      Count.reachedFrom_targetSummary]
  unfold scrollPxOffsetForScrollbar
  rw [if_neg (fun h => by rw [htop] at h; cases h.1)]
  simp only [getLogicalScrollTop, htop, hsummary, ok_bind]
  rw [measure_summary_height, ← hmid]
  rfl

/-- What is expected of a scroll by pixels: it moves the pixel position, the scrollbar
    shows where to, and the way back leads to where it came from, unless the list starts
    before that. -/
structure MovesPixels (state : ListTree X F) (distance : X) (state' : ListTree X F)
    (scrollTop : ListOffset X) : Prop where
  items : state'.items = state.items
  logical : state'.logicalScrollTop = some scrollTop
  scrolled : Scrolled state.items.toList distance state.getLogicalScrollTop scrollTop
  scrollbar : state'.scrollPxOffsetForScrollbar =
    .ok ⟨0, -pixelPosition state.items.toList scrollTop⟩
  back : 0 ≤ pixelPosition state.items.toList state.getLogicalScrollTop + distance →
    ∃ back scrollTop', state'.scrollBy (-distance) = .ok back ∧
      back.logicalScrollTop = some scrollTop' ∧
      pixelPosition state.items.toList scrollTop' =
        pixelPosition state.items.toList state.getLogicalScrollTop

/-- **Pixel and logical scroll positions agree**, on a tree that a cursor has room for. -/
theorem scrollBy_moves_pixels (wf : state.items.WellFormed) (hheight : state.items.height ≤ 15)
    (hitems : ∀ item ∈ state.items.toList, 0 ≤ item.height)
    (hitemIx : state.getLogicalScrollTop.itemIx ≤ state.items.toList.length)
    (hoffset : 0 ≤ state.getLogicalScrollTop.offsetInItem) {distance : X}
    (hdistance : distance ≠ 0) :
    ∃ state' scrollTop, state.scrollBy distance = .ok state' ∧
      MovesPixels state distance state' scrollTop := by
  obtain ⟨state', scrollTop, hscroll, hsame, htop, scrolled⟩ :=
    scrollBy_ok wf hheight hitems hitemIx hoffset hdistance
  have hlogical : state'.getLogicalScrollTop = scrollTop := by
    rw [getLogicalScrollTop, htop]
  refine ⟨state', scrollTop, hscroll, hsame, htop, scrolled, ?_, fun hunclamped => ?_⟩
  · rw [← hsame] at wf hheight ⊢
    exact scrollPxOffset_eq wf hheight htop
  · obtain ⟨back, scrollTop', hback, -, htop', scrolled'⟩ :=
      scrollBy_ok (hsame ▸ wf) (hsame ▸ hheight) (hsame ▸ hitems)
        (by rw [hlogical, hsame]; exact scrolled.itemIx_le)
        (by rw [hlogical]; exact scrolled.nonneg) (neg_ne_zero.mpr hdistance)
    refine ⟨back, scrollTop', hback, htop', ?_⟩
    have hposition := scrolled'.position
    rw [hlogical, hsame, scrolled.position, max_eq_right hunclamped, add_neg_cancel_right] at hposition
    rw [hposition]
    -- a pixel position is never negative
    refine max_eq_right (add_nonneg (sum_nonneg fun h hh => ?_) hoffset)
    obtain ⟨item, hitem, rfl⟩ := mem_map.mp hh
    exact hitems item (mem_of_mem_take hitem)

omit [LinearOrder X] [IsStrictOrderedRing X] in
/-- Items that are all measured alike have one height. -/
theorem height_of_mem_replicate {n : Nat} {size : Size X} {item : ListItem X F}
    (hitem : item ∈ List.replicate n (.measured size none)) : item.height = size.height := by
  rw [eq_of_mem_replicate hitem]
  rfl

/-- From the middle of one item into the next but one, over an item of no height. -/
theorem scrollBy_moves_pixels_threeItems :
    let items : List (ListItem ℚ Unit) :=
      [.measured ⟨0, 20⟩ none, .unmeasured none none, .measured ⟨0, 20⟩ none]
    let state := { ofItems items with logicalScrollTop := some ⟨0, 10⟩ }
    ∃ state' scrollTop, state.scrollBy 15 = .ok state' ∧ MovesPixels state 15 state' scrollTop := by
  intro items state
  have wf : state.items.WellFormed := wellFormed_leaf (by decide)
  refine scrollBy_moves_pixels wf (by decide) ?_ (by decide) ?_ (by norm_num)
  · intro item hitem
    simp only [state, ofItems, items, SumTree.toList_leaf, mem_cons, not_mem_nil, or_false] at hitem
    rcases hitem with rfl | rfl | rfl
    · norm_num [ListItem.height, ListItem.sizeHint]
    · norm_num [ListItem.height, ListItem.sizeHint]
    · norm_num [ListItem.height, ListItem.sizeHint]
  · show (0 : ℚ) ≤ 10
    norm_num

/-- A list whose tree is too deep for a cursor cannot be scrolled. -/
theorem scrollBy_panics :
    ∃ state : ListTree ℚ Unit, new (12 ^ 16 + 1) .top 0 = .ok state ∧
      ∃ e, state.scrollBy 1 = .error e := by
  obtain ⟨state, hnew, htop, halignment, wf, hitems⟩ :=
    new_spec (X := ℚ) (F := Unit) (show 12 ^ 16 + 1 < 2 ^ 64 by decide) .top 0
  refine ⟨state, hnew, ?_⟩
  have hdeep := deep_of_length wf (by rw [hitems, length_replicate]; exact Nat.lt_succ_self _)
  have hstart : state.getLogicalScrollTop = ⟨0, 0⟩ := by
    rw [getLogicalScrollTop, htop, halignment]
  obtain ⟨e, he⟩ := Cursor.seek_deep (Count.targetSummary (X := ℚ) 0) .right wf hdeep (by
    rw [Count.reached_targetSummary]
    show decide ((measure (ListItemSummary ℚ) state.items.toList).count ≤ 0) = false
    rw [measure_summary_count, hitems, length_replicate]
    decide)
  refine ⟨e, ?_⟩
  have hforward : ¬ (1 : ℚ) < 0 := by norm_num
  simp only [scrollBy, one_ne_zero, if_false, hforward, hstart, he]
  rfl

end ListTree

end Tree

end Gpui
