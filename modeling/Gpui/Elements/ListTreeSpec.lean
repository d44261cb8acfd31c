import Gpui.Elements.ListTree
import Gpui.Elements.ListStateSpec
import Gpui.SumTree.Slices
import Gpui.SumTree.Spine

/-! # Splicing a list

    On a tree that a cursor has room for, the operations on the tree of the items do what
    the operations on a plain list do.  So a splice leaves the items outside its range
    where they are, and the scroll position on the item it was on. -/

namespace Gpui

open List

open Exec (Returns Ensures ok_bind)

variable {X F : Type} [Field X]

/-! ## Counting -/

instance : LawfulSummary (ListItemSummary X) where
  add_assoc s t u := by
    ext <;> simp [Summary.addSummary, add_assoc, Bool.or_assoc]
  zero_add s := by
    ext <;> simp [Summary.addSummary, Summary.zero]

instance : LawfulDimension Count (ListItemSummary X) where
  add_add d s t := by
    ext
    simp [Dimension.addSummary, Summary.addSummary, Nat.add_assoc]

theorem ListItem.summary_count (item : ListItem X F) :
    (Item.summary item : ListItemSummary X).count = 1 := by
  cases item <;> rfl

theorem ListItem.summary_height (item : ListItem X F) :
    (Item.summary item : ListItemSummary X).height = item.height := by
  cases item <;> rfl

theorem measureFrom_count (d : Count) (items : List (ListItem X F)) :
    measureFrom d items = ⟨d.value + items.length⟩ := by
  induction items generalizing d with
  | nil => rfl
  | cons item items ih =>
    rw [measureFrom_cons, ih, length_cons]
    simp only [Dimension.addSummary, ListItem.summary_count]
    rw [Nat.add_assoc, Nat.add_comm 1]

theorem measure_count (items : List (ListItem X F)) : measure Count items = ⟨items.length⟩ := by
  rw [measure, measureFrom_count]
  simp [Dimension.zero]

/-- What a cursor over the whole summary shows: how many items lie before it, and how
    high they are. -/
theorem measureFrom_summary (d : ListItemSummary X) (items : List (ListItem X F)) :
    (measureFrom d items).count = d.count + items.length ∧
      (measureFrom d items).height = d.height + totalHeight items := by
  induction items generalizing d with
  | nil => simp [totalHeight]
  | cons item items ih =>
    rw [measureFrom_cons]
    obtain ⟨hcount, hheight⟩ := ih (Dimension.addSummary d (Item.summary item))
    rw [hcount, hheight, length_cons]
    constructor
    · show d.count + (Item.summary item : ListItemSummary X).count + _ = _
      rw [ListItem.summary_count]
      omega
    · show d.height + (Item.summary item : ListItemSummary X).height + _ = _
      rw [ListItem.summary_height, totalHeight, totalHeight, map_cons, sum_cons,
        add_assoc]

theorem measure_summary_count (items : List (ListItem X F)) :
    (measure (ListItemSummary X) items).count = items.length := by
  rw [measure, (measureFrom_summary _ items).1]
  exact Nat.zero_add _

theorem measure_summary_height (items : List (ListItem X F)) :
    (measure (ListItemSummary X) items).height = totalHeight items := by
  rw [measure, (measureFrom_summary _ items).2]
  exact zero_add _

/-- The summary of a tree counts its items. -/
theorem SumTree.WellFormed.summary_count {items : SumTree (ListItem X F) (ListItemSummary X)}
    (wf : items.WellFormed) : items.summary.count = items.toList.length := by
  rcases wf with rfl | ⟨h, -, wf⟩
  · rfl
  · have hsum : Summary.addSummary Summary.zero (itemsSum items.toList) =
        measure (ListItemSummary X) items.toList :=
      addSummary_itemsSum (Summary.zero : ListItemSummary X) wf.toList_ne_nil
    rw [wf.summary_eq, ← measure_summary_count, ← hsum, LawfulSummary.zero_add]

/-! ## Seeking a count -/

/-- A target with `Bias::Right` reaches what it is not less than. -/
theorem reached_cmp_right {D Y : Type} [LinearOrder Y] (y : Y) (f : D → Y) (e : D) :
    reached (fun position => cmp y (f position)) .right e = decide (f e ≤ y) := by
  unfold reached
  rcases lt_trichotomy (f e) y with hlt | rfl | hgt
  · simp [(cmp_eq_gt_iff y (f e)).mpr hlt, hlt.le]
  · simp
  · simp [(cmp_eq_lt_iff y (f e)).mpr hgt, hgt]

section Count

variable {D : Type} [Dimension D (ListItemSummary X)] {countOf : D → Nat}

theorem monotone_count
    (hcount : ∀ items : List (ListItem X F), countOf (measure D items) = items.length)
    (count : Nat) (items : List (ListItem X F)) :
    MonotoneTarget (fun position => cmp count (countOf position)) items := by
  intro p q r _
  simp only [hcount, length_append, cmp_eq_gt_iff, cmp_eq_lt_iff]
  omega

/-- A count reaches that many items. -/
theorem reachedFrom_count
    (hstep : ∀ (d : D) (item : ListItem X F),
      countOf (Dimension.addSummary d (Item.summary item)) = countOf d + 1)
    (count : Nat) (d : D) (items : List (ListItem X F)) :
    reachedFrom (fun position => cmp count (countOf position)) .right d items =
      items.take (count - countOf d) := by
  induction items generalizing d with
  | nil => rw [take_nil, reachedFrom]
  | cons item items ih =>
    rw [reachedFrom, reached_cmp_right, hstep, ih, hstep]
    by_cases hle : countOf d + 1 ≤ count
    · rw [if_pos (by simpa using hle), show count - countOf d = count - (countOf d + 1) + 1 by omega,
        take_succ_cons]
    · rw [if_neg (by simpa using hle), show count - countOf d = 0 by omega, take_zero]

end Count

theorem Count.monotone_target (count : Nat) (items : List (ListItem X F)) :
    MonotoneTarget (Count.target count) items :=
  monotone_count (fun items => by rw [measure_count]) count items

theorem Count.reachedFrom_target (count : Nat) (d : Count) (items : List (ListItem X F)) :
    reachedFrom (Count.target count) .right d items = items.take (count - d.value) :=
  reachedFrom_count (fun d item => congrArg (d.value + ·) item.summary_count) count d items

/-! ## Splicing the tree -/

namespace ListTree

variable {items : SumTree (ListItem X F) (ListItemSummary X)} {first last : Nat}
  {replacement : List (ListItem X F)}

/-- The slice before the range holds the first items, and the cursor stands behind them. -/
theorem sliceFront (wf : items.WellFormed) (hheight : items.height ≤ 15) (first : Nat) :
    ∃ c front after,
      (Cursor.new items).slice (Count.target first) .right = .ok (c, front) ∧
      Cursor.Stopped Measured (Count.target first) .right items [] items.toList front.toList
        after c ∧
      front.WellFormed ∧ front.toList = items.toList.take first ∧
      c.position = ⟨front.toList.length⟩ := by
  obtain ⟨c, front, mid, after, hslice, stopped, wfFront, rfl⟩ :=
    Cursor.slice_returns (Count.target first) .right wf hheight (c := .new items)
      (.inl ⟨rfl, rfl, rfl⟩) (by simp [Count.target, cmp_eq_lt_iff, Cursor.new, Dimension.zero])
  refine ⟨c, front, after, hslice, stopped, wfFront, ?_, ?_⟩
  · rw [← stopped.mid_eq (Count.monotone_target first _), Count.reachedFrom_target]
    rfl
  · rw [← measure_count]
    exact stopped.pos.position

/-- Low trees are joined with what comes between them. -/
theorem extend_append_ok {front tail : SumTree (ListItem X F) (ListItemSummary X)}
    (wfFront : front.WellFormed) (hlowFront : front.height ≤ 56)
    (hfew : replacement.length ≤ nodeCapacity ^ 57) (wfTail : tail.WellFormed)
    (hlowTail : tail.height ≤ 56) :
    ∃ extended items', front.extend replacement = .ok extended ∧
      extended.append tail = .ok items' ∧ items'.WellFormed ∧
      items'.toList = front.toList ++ replacement ++ tail.toList := by
  obtain ⟨u, hu, wfu, hitemsu⟩ := ((SumTree.fromIter_spec (S := ListItemSummary X) replacement).imp
    (fun _ h => h) (fun e he => absurd (hfew.trans (Nat.pow_le_pow_right (by decide) (by decide)))
      (Nat.not_le.mpr he.2))).returns
  have hlowu := SumTree.fromIter_height hfew hu
  obtain ⟨extended, hextend, appended⟩ := ((SumTree.append_spec wfFront wfu).imp
    (fun _ h => h) (fun e he => by omega)).returns
  have hlowExtended := appended.height
  obtain ⟨items', happend, appended'⟩ := ((SumTree.append_spec appended.wf wfTail).imp
    (fun _ h => h) (fun e he => by omega)).returns
  refine ⟨extended, items', ?_, happend, appended'.wf, ?_⟩
  · simp only [SumTree.extend, hu, hextend, ok_bind]
  · rw [appended'.items, appended.items, hitemsu]

variable (replacement) in
/-- **Splicing the tree** splices the list: the first items, the replacement, and the items
    behind the range. -/
theorem spliceItems_ok (wf : items.WellFormed) (hheight : items.height ≤ 15)
    (hforward : min first items.toList.length ≤ last)
    (hfew : replacement.length ≤ nodeCapacity ^ 57) :
    ∃ items', spliceItems items first last replacement = .ok items' ∧ items'.WellFormed ∧
      items'.toList =
        items.toList.take first ++ replacement ++ items.toList.drop (max first last) := by
  -- the items before the range
  obtain ⟨c, front, after, hslice, stopped, wfFront, hfront, hposition⟩ :=
    sliceFront wf hheight first
  have hlowFront : front.height ≤ 56 :=
    Cursor.slice_low Tracks.measured determines_measured wf hheight (.inl ⟨rfl, rfl, rfl⟩) hslice
  -- the items of the range are passed
  obtain ⟨c', found, mid, rest, hseek, stopped', hlast⟩ :
      ∃ c' found mid rest, c.seekForward (Count.target last) .right = .ok (c', found) ∧
        Cursor.Stopped Measured (Count.target last) .right items front.toList after mid rest c' ∧
        mid = after.take (last - front.toList.length) := by
    obtain ⟨c', found, mid, rest, hseek, stopped'⟩ :=
      Cursor.seekForward_returns (Count.target last) .right wf hheight (.inr stopped.pos) (by
        rw [hposition, hfront, length_take]
        show cmp last (min first items.toList.length) ≠ .lt
        rw [Ne, cmp_eq_lt_iff]
        omega)
    refine ⟨c', found, mid, rest, hseek, stopped', ?_⟩
    have hmid := stopped'.mid_eq (Count.monotone_target last _)
    rw [nil_append, measure_count, Count.reachedFrom_target] at hmid
    exact hmid.symm
  -- the items behind the range
  obtain ⟨c'', tail, hsuffix, -, wfTail, htail⟩ :=
    Cursor.suffix_returns wf hheight (.inr stopped'.pos)
  have hlowTail : tail.height ≤ 56 :=
    Cursor.slice_low Tracks.measured determines_measured wf hheight (.inr stopped'.pos) hsuffix
  obtain ⟨extended, items', hextend, happend, wf', hitems⟩ :=
    extend_append_ok wfFront hlowFront hfew wfTail hlowTail
  refine ⟨items', ?_, wf', ?_⟩
  · simp only [spliceItems, hslice, hseek, hextend, hsuffix, happend, ok_bind]
  · rw [hitems, htail, hfront]
    congr 1
    have hafter : after = items.toList.drop first := by
      have hsplit := stopped.split
      rw [hfront] at hsplit
      exact (append_cancel_left ((take_append_drop _ _).trans hsplit)).symm
    have hrest : rest = after.drop (last - front.toList.length) := by
      have hsplit := stopped'.split
      rw [hlast] at hsplit
      exact (append_cancel_left ((take_append_drop _ _).trans hsplit)).symm
    rw [hrest, hafter, drop_drop, hfront, length_take]
    rcases Nat.le_total first items.toList.length with hfirst | hfirst
    · congr 1
      omega
    · rw [drop_eq_nil_of_le (by omega), drop_eq_nil_of_le (by omega)]

variable {state : ListTree X F}

/-! ## The scroll position -/

/-- Where a splice moves the scroll position to. -/
def splicedScrollTop (first last count : Nat) (scrollTop : ListOffset X) : ListOffset X :=
  if scrollTop.itemIx < first then scrollTop
  else if scrollTop.itemIx < last then ⟨first, 0⟩
  else { scrollTop with itemIx := scrollTop.itemIx - (last - first) + count }

/-- The branches of the code, in the order of the items; nothing underflows. -/
theorem spliceScrollTop_eq (hrange : first ≤ last) (count : Nat) (scrollTop : ListOffset X) :
    ListState.spliceScrollTop first last count scrollTop =
      .ok (splicedScrollTop first last count scrollTop) := by
  unfold ListState.spliceScrollTop splicedScrollTop
  by_cases hbefore : scrollTop.itemIx < first
  · rw [if_neg (fun h => absurd h.1 (Nat.not_le.mpr hbefore)), if_neg (by omega), if_pos hbefore]
  · by_cases hinside : scrollTop.itemIx < last
    · rw [if_pos ⟨Nat.le_of_not_lt hbefore, hinside⟩, if_neg hbefore, if_pos hinside]
    · rw [if_neg (fun h => hinside h.2), if_pos (Nat.le_of_not_lt hinside),
        if_neg (Nat.not_lt.mpr hrange), if_neg hbefore, if_neg hinside]

/-- An item outside the range is found where its index moves to. -/
theorem getElem?_spliced {T : Type} (xs replacement : List T) {i : Nat} (hrange : first ≤ last)
    (hlast : last ≤ xs.length) (houtside : i < first ∨ last ≤ i) :
    (xs.take first ++ replacement ++ xs.drop last)[
        if i < first then i else i - (last - first) + replacement.length]? = xs[i]? := by
  have hfront : (xs.take first).length = first := by
    rw [length_take]
    omega
  rcases houtside with hi | hi
  · rw [if_pos hi, append_assoc, getElem?_append_left (by omega),
      getElem?_take_of_lt hi]
  · rw [if_neg (by omega), getElem?_append_right (by rw [length_append]; omega),
      length_append, hfront, getElem?_drop]
    congr 1
    omega

/-- What is expected of a splice: the items outside the range, around the new ones, and
    the scroll position on the item it was on, if that is still there, or at the end. -/
structure Spliced (state : ListTree X F) (first last count : Nat) (state' : ListTree X F) :
    Prop where
  wellFormed : state'.items.WellFormed
  items : state'.items.toList =
    state.items.toList.take first ++ List.replicate count (.unmeasured none none) ++
      state.items.toList.drop last
  scrollTop : state'.logicalScrollTop =
    state.logicalScrollTop.map (splicedScrollTop first last count)
  sameItem : ∀ scrollTop scrollTop', state.logicalScrollTop = some scrollTop →
    state'.logicalScrollTop = some scrollTop' →
    scrollTop.itemIx < first ∨ last ≤ scrollTop.itemIx →
    state'.items.toList[scrollTop'.itemIx]? = state.items.toList[scrollTop.itemIx]? ∧
      scrollTop'.offsetInItem = scrollTop.offsetInItem ∧
      (scrollTop.itemIx = state.items.toList.length →
        scrollTop'.itemIx = state'.items.toList.length)
  others : state' =
    { state with items := state'.items, logicalScrollTop := state'.logicalScrollTop }

variable (state) in
/-- A splice changes the items and the scroll position, and nothing else. -/
theorem splice_ok (wf : state.items.WellFormed) (hheight : state.items.height ≤ 15)
    (hrange : first ≤ last) {count : Nat} (hcount : count < 2 ^ 64) :
    ∃ items', splice state first last count = .ok { state with
        items := items'
        logicalScrollTop := state.logicalScrollTop.map (splicedScrollTop first last count) } ∧
      items'.WellFormed ∧
      items'.toList = state.items.toList.take first ++
        List.replicate count (.unmeasured none none) ++ state.items.toList.drop last := by
  obtain ⟨items', hsplice, wf', hlist⟩ := spliceItems_ok
    ((List.replicate count (none : Option F)).map fun focusHandle => .unmeasured none focusHandle)
    wf hheight ((Nat.min_le_left _ _).trans hrange) (by
      rw [length_map, length_replicate]
      exact hcount.le.trans (by decide))
  rw [Nat.max_eq_right hrange, map_replicate] at hlist
  refine ⟨items', ?_, wf', hlist⟩
  simp only [splice, spliceFocusable, hsplice, ok_bind]
  cases htop : state.logicalScrollTop with
  | none => rfl
  | some scrollTop =>
    simp only [length_replicate, spliceScrollTop_eq hrange, ok_bind]
    rfl

/-- **A splice keeps the view anchored**, for every range of the items and every scroll
    position, on a tree that a cursor has room for.  The items are counted in a
    `usize`. -/
theorem splice_keeps_anchor (wf : state.items.WellFormed) (hheight : state.items.height ≤ 15)
    (hrange : first ≤ last) (hlast : last ≤ state.items.toList.length) {count : Nat}
    (hcount : state.items.toList.length - (last - first) + count < 2 ^ 64) :
    ∃ state', splice state first last count = .ok state' ∧
      Spliced state first last count state' := by
  obtain ⟨items', hsplice, wf', hlist⟩ :=
    splice_ok state wf hheight hrange ((Nat.le_add_left _ _).trans_lt hcount)
  refine ⟨_, hsplice, wf', hlist, rfl, ?_, rfl⟩
  intro scrollTop scrollTop' htop htop' houtside
  rw [htop] at htop'
  obtain rfl := Option.some.inj htop'
  have hmoved : splicedScrollTop first last count scrollTop =
      ⟨if scrollTop.itemIx < first then scrollTop.itemIx
        else scrollTop.itemIx - (last - first) + count, scrollTop.offsetInItem⟩ := by
    unfold splicedScrollTop
    rcases houtside with hi | hi
    · simp [hi]
    · simp [Nat.not_lt.mpr hi, Nat.not_lt.mpr (hrange.trans hi)]
  rw [hmoved]
  refine ⟨?_, rfl, fun hend => ?_⟩
  · have hitem := getElem?_spliced state.items.toList
      (List.replicate count (ListItem.unmeasured (X := X) (F := F) none none)) hrange hlast houtside
    rw [length_replicate] at hitem
    rw [hlist]
    exact hitem
  · dsimp only
    rw [hlist, length_append, length_append, length_take, length_drop,
      length_replicate, if_neg (by omega)]
    omega

/-- A list at rest, with its items in a leaf. -/
def ofItems (items : List (ListItem ℚ Unit)) : ListTree ℚ Unit where
  lastLayoutBounds := none
  lastPadding := none
  items := .leaf (itemsSum items) items (items.map Item.summary)
  logicalScrollTop := none
  alignment := .top
  overdraw := 0
  reset := false
  scrollbarDragStartHeight := none
  measuringBehavior := .visible
  pendingScroll := none
  followState := .normal

/-- An item before the scroll position is replaced by two. -/
theorem splice_keeps_anchor_threeItems :
    let item : ListItem ℚ Unit := .unmeasured none none
    let state := { ofItems [item, item, item] with logicalScrollTop := some ⟨2, 5⟩ }
    ∃ state', splice state 1 2 2 = .ok state' ∧ Spliced state 1 2 2 state' := by
  intro item state
  have wf : state.items.WellFormed := wellFormed_leaf (by decide)
  exact splice_keeps_anchor wf (by decide) (by decide) (by decide) (by decide)

/-- A new list holds as many unmeasured items as it is asked for. -/
theorem new_spec {itemCount : Nat} (hcount : itemCount < 2 ^ 64) (alignment : ListAlignment)
    (overdraw : X) :
    ∃ state : ListTree X F, new itemCount alignment overdraw = .ok state ∧
      state.logicalScrollTop = none ∧ state.alignment = alignment ∧ state.items.WellFormed ∧
      state.items.toList = List.replicate itemCount (.unmeasured none none) := by
  obtain ⟨items', hnew, wf, hlist⟩ := splice_ok (X := X) (F := F)
    ⟨none, none, .new, none, alignment, overdraw, false, none, .visible, none, .normal⟩
    SumTree.wellFormed_new (by simp [SumTree.new, SumTree.height]) (Nat.le_refl 0) hcount
  exact ⟨_, hnew, rfl, rfl, wf, by simpa [SumTree.new] using hlist⟩

/-- So many items need more levels than a cursor has room for. -/
theorem deep_of_length (wf : items.WellFormed) (hlength : 12 ^ 16 < items.toList.length) :
    16 ≤ items.height := by
  have := (Nat.pow_lt_pow_iff_right (show 1 < 12 by decide)).mp
    (hlength.trans_le wf.length_toList_le)
  omega

/-- As many items, put into a tree at once. -/
theorem fromIter_deep (item : ListItem X F) :
    ∃ items : SumTree (ListItem X F) (ListItemSummary X),
      SumTree.fromIter (List.replicate (12 ^ 16 + 1) item) = .ok items ∧ items.WellFormed ∧
      items.toList = List.replicate (12 ^ 16 + 1) item ∧ 16 ≤ items.height := by
  obtain ⟨items, hitems, wf, hlist⟩ := ((SumTree.fromIter_spec (S := ListItemSummary X)
    (List.replicate (12 ^ 16 + 1) item)).imp (fun _ h => h) (fun e he => absurd he.2 (by
      rw [length_replicate, not_lt]
      show 12 ^ 16 + 1 ≤ 12 ^ 256
      decide +kernel))).returns
  exact ⟨items, hitems, wf, hlist, deep_of_length wf (by rw [hlist, length_replicate]; exact Nat.lt_succ_self _)⟩

/-- A list whose tree is too deep for a cursor cannot be spliced. -/
theorem splice_panics :
    ∃ state : ListTree ℚ Unit, new (12 ^ 16 + 1) .top 0 = .ok state ∧
      ∃ e, splice state 0 0 0 = .error e := by
  obtain ⟨state, hnew, -, -, wf, hitems⟩ :=
    new_spec (X := ℚ) (F := Unit) (show 12 ^ 16 + 1 < 2 ^ 64 by decide) .top 0
  refine ⟨state, hnew, ?_⟩
  have hdeep := deep_of_length wf (by rw [hitems, length_replicate]; exact Nat.lt_succ_self _)
  obtain ⟨e, he⟩ := Cursor.slice_deep (Count.target 0) .right wf hdeep (by
    show reached (fun position : Count => cmp 0 position.value) .right _ = false
    rw [reached_cmp_right, measure_count, hitems, length_replicate]
    decide)
  exact ⟨e, by simp only [splice, spliceFocusable, spliceItems, he]; rfl⟩

end ListTree

end Gpui
