import Gpui.Panic

/-! # The uniform list: the model

    A list whose items have the same height prepaints those that are visible.  Before, it
    scrolls to an item if it was told to.  Only the vertical coordinate is here; lengths are
    in an ordered field `X`, and `E` are the elements that are rendered. -/

namespace Gpui

inductive ScrollStrategy where
  | top
  | center
  | bottom
  | nearest
deriving DecidableEq, Repr

structure DeferredScrollToItem where
  itemIndex : Nat
  strategy : ScrollStrategy
  /-- In items. -/
  offset : Nat
  scrollStrict : Bool

/-- A list of items, with its bounds and the widths of its borders and paddings. -/
structure UniformList (X : Type) where
  itemCount : Nat
  itemHeight : X
  boundsTop : X
  boundsHeight : X
  borderTop : X
  borderBottom : X
  paddingTop : X
  paddingBottom : X

/-- An element that was prepainted at a slot. -/
structure PrepaintedItem (X E : Type) where
  element : E
  ix : Nat
  origin : X
deriving DecidableEq

structure Prepainted (X E : Type) where
  scrollOffset : X
  rangeStart : Nat
  rangeEnd : Nat
  items : List (PrepaintedItem X E)

namespace UniformList

variable {X E : Type} [Field X]

/-- The first corner of the padded bounds. -/
def paddedTop (list : UniformList X) : X :=
  list.boundsTop + (list.borderTop + list.paddingTop)

def paddedHeight (list : UniformList X) : X :=
  list.boundsTop + list.boundsHeight - (list.borderBottom + list.paddingBottom) - list.paddedTop

def contentHeight (list : UniformList X) : X :=
  list.itemHeight * list.itemCount

def addUsize (a b : Nat) : Run Nat :=
  if a + b < 2 ^ 64 then .ok (a + b) else .error .addOverflow

variable [LinearOrder X]

def clamp (x min max : X) : X :=
  if x < min then min else if max < x then max else x

/-- A scroll offset beyond the largest one is taken back. -/
def clampScroll (list : UniformList X) (scrollOffset : X) : X :=
  let maxScrollOffset := list.paddedHeight - list.contentHeight
  if scrollOffset ≠ 0 ∧ scrollOffset < maxScrollOffset then maxScrollOffset else scrollOffset

/-- The strategy that `Nearest` stands for. -/
def resolveStrategy (strategy : ScrollStrategy) (isAbove isBelow : Bool) : ScrollStrategy :=
  if strategy = .nearest then
    if isAbove then .top else if isBelow then .bottom else .nearest
  else strategy

/-- The scroll offset after a deferred scroll. -/
def scrollToItem (list : UniformList X) (yFlipped : Bool) (deferred : DeferredScrollToItem)
    (scrollOffset : X) : Run X := do
  let itemIndex ←
    if yFlipped then do
      let next ← addUsize deferred.itemIndex 1
      .ok (list.itemCount - next)
    else .ok deferred.itemIndex
  let listHeight := list.paddedHeight
  let itemTop := list.itemHeight * itemIndex
  let itemBottom := itemTop + list.itemHeight
  let scrollTop := -scrollOffset
  let offsetPixels := list.itemHeight * deferred.offset
  -- is the selected item above or below the visible items
  let isAbove : Bool := itemTop < scrollTop + offsetPixels
  let isBelow : Bool := scrollTop + listHeight < itemBottom
  if deferred.scrollStrict || isAbove || isBelow then
    let maxScrollOffset := max (list.contentHeight - listHeight) 0
    match resolveStrategy deferred.strategy isAbove isBelow with
    | .top => .ok (-clamp (itemTop - offsetPixels) 0 maxScrollOffset)
    | .center =>
        let itemCenter := itemTop + list.itemHeight / (2 : Nat)
        let viewportHeight := listHeight - offsetPixels
        let viewportCenter := offsetPixels + viewportHeight / (2 : Nat)
        .ok (-clamp (itemCenter - viewportCenter) 0 maxScrollOffset)
    | .bottom => .ok (-clamp (itemBottom - listHeight) 0 maxScrollOffset)
    -- the item is visible
    | .nearest => .ok scrollOffset
  else .ok scrollOffset

/-- The scroll offset that the items are prepainted with. -/
def updateScroll (list : UniformList X) (yFlipped : Bool)
    (deferred : Option DeferredScrollToItem) (scrollOffset : X) : Run X :=
  match deferred with
  | some deferred => list.scrollToItem yFlipped deferred (list.clampScroll scrollOffset)
  | none          => .ok (list.clampScroll scrollOffset)

variable [FloorRing X]

def firstVisible (list : UniformList X) (scrollOffset : X) : Nat :=
  ⌊-(scrollOffset + list.paddingTop) / list.itemHeight⌋.toNat

def lastVisible (list : UniformList X) (scrollOffset : X) : Nat :=
  ⌈(-scrollOffset + list.paddedHeight) / list.itemHeight⌉.toNat

/-- The elements of the visible items, in the order of their slots. -/
def renderVisible (list : UniformList X) (renderItems : Nat → Nat → List E) (yFlipped : Bool)
    (first last : Nat) : List E :=
  if yFlipped then (renderItems (list.itemCount - last) (list.itemCount - first)).reverse
  else renderItems first last

/-- `prepaint`.  `renderItems` renders the items from an index up to another. -/
def prepaint (list : UniformList X) (renderItems : Nat → Nat → List E) (yFlipped : Bool)
    (deferred : Option DeferredScrollToItem) (scrollOffset : X) : Run (Prepainted X E) :=
  if 0 < list.itemCount then do
    let scrollOffset ← list.updateScroll yFlipped deferred scrollOffset
    let first := list.firstVisible scrollOffset
    let last := min (list.lastVisible scrollOffset) list.itemCount
    let items := list.renderVisible renderItems yFlipped first last
    .ok {
      scrollOffset
      rangeStart := first
      rangeEnd := last
      items := (items.zip (List.range' first (last - first))).map (fun (element, ix) =>
        ⟨element, ix, list.paddedTop + scrollOffset + list.itemHeight * ix⟩) }
  else .ok ⟨scrollOffset, 0, 0, []⟩

end UniformList

end Gpui

/-! # The visible items of a uniform list

    The first visible item is computed from the bounds less their borders, with the padding
    at the top, but the last one from the padded bounds.  Elements are painted in the
    bounds, so that an item that begins in the padding at the bottom is missed.

    * `firstVisible_le` and `lt_lastVisible_iff` are the two ends of the range.
    * **`draws_visible_iff`**: the visible items are drawn iff none begins in that padding. -/

namespace Gpui

namespace UniformList

variable {X E : Type} [Field X] [LinearOrder X]

/-! ### Section 1: Slots -/

section Slots

/-- Where the slot of an index begins. -/
def slotTop (list : UniformList X) (scrollOffset : X) (ix : Nat) : X :=
  list.paddedTop + scrollOffset + list.itemHeight * ix

/-- The bounds less their borders. -/
def innerTop (list : UniformList X) : X := list.boundsTop + list.borderTop

def innerBottom (list : UniformList X) : X :=
  list.boundsTop + list.boundsHeight - list.borderBottom

/-- A slot and the bounds less their borders have a point in common. -/
def Shows (list : UniformList X) (scrollOffset : X) (ix : Nat) : Prop :=
  ∃ y, list.slotTop scrollOffset ix ≤ y ∧ y < list.slotTop scrollOffset ix + list.itemHeight ∧
    list.innerTop ≤ y ∧ y < list.innerBottom

/-- A slot begins between the padded bounds and the border at the bottom, and ends below the
    border at the top. -/
structure InBottomPadding (list : UniformList X) (scrollOffset : X) (ix : Nat) : Prop where
  begins : list.paddedTop + list.paddedHeight ≤ list.slotTop scrollOffset ix
  beforeBorder : list.slotTop scrollOffset ix < list.innerBottom
  ends : list.innerTop < list.slotTop scrollOffset ix + list.itemHeight
  nonempty : list.innerTop < list.innerBottom

variable {list : UniformList X} {scrollOffset : X} {ix : Nat}

theorem shows_iff [IsStrictOrderedRing X] (hheight : 0 < list.itemHeight) :
    list.Shows scrollOffset ix ↔ list.slotTop scrollOffset ix < list.innerBottom ∧
      list.innerTop < list.slotTop scrollOffset ix + list.itemHeight ∧
      list.innerTop < list.innerBottom := by
  constructor
  · intro ⟨y, htop, hbottom, hinner, hborder⟩
    exact ⟨htop.trans_lt hborder, hinner.trans_lt hbottom, hinner.trans_lt hborder⟩
  · intro ⟨htop, hbottom, hinner⟩
    refine ⟨max (list.slotTop scrollOffset ix) list.innerTop, le_max_left _ _, ?_,
      le_max_right _ _, max_lt htop hinner⟩
    exact max_lt (lt_add_of_pos_right _ hheight) hbottom

end Slots

/-! ### Section 2: The ends of the range -/

section Ends

variable [IsStrictOrderedRing X] [FloorRing X] {list : UniformList X} {scrollOffset : X}
variable {ix : Nat}

/-- No slot above the first one ends below the border at the top. -/
theorem firstVisible_le (hheight : 0 < list.itemHeight)
    (h : list.innerTop < list.slotTop scrollOffset ix + list.itemHeight) :
    list.firstVisible scrollOffset ≤ ix := by
  have hlt : -(scrollOffset + list.paddingTop) < ((ix : X) + 1) * list.itemHeight := by
    unfold innerTop slotTop paddedTop at h
    linarith
  have hfloor : ⌊-(scrollOffset + list.paddingTop) / list.itemHeight⌋ < (ix : ℤ) + 1 := by
    rw [Int.floor_lt]
    push_cast
    exact (div_lt_iff₀ hheight).mpr hlt
  unfold firstVisible
  omega

/-- The slots up to the last one are those that begin in the padded bounds. -/
theorem lt_lastVisible_iff (hheight : 0 < list.itemHeight) :
    ix < list.lastVisible scrollOffset ↔
      list.slotTop scrollOffset ix < list.paddedTop + list.paddedHeight := by
  have hceil : (ix : ℤ) < ⌈(-scrollOffset + list.paddedHeight) / list.itemHeight⌉ ↔
      (ix : X) * list.itemHeight < -scrollOffset + list.paddedHeight := by
    rw [Int.lt_ceil, Int.cast_natCast, lt_div_iff₀ hheight]
  unfold lastVisible
  rw [Int.lt_toNat, hceil]
  unfold slotTop
  constructor
  · intro h
    linarith
  · intro h
    linarith

end Ends

/-! ### Section 3: The elements -/

/-- The items from an index up to another, each rendered by itself. -/
def RendersItems (renderItems : Nat → Nat → List E) (element : Nat → E) : Prop :=
  ∀ first last, renderItems first last = (List.range' first (last - first)).map element

/-- The item of a slot. -/
def itemAt (list : UniformList X) (yFlipped : Bool) (ix : Nat) : Nat :=
  if yFlipped then list.itemCount - 1 - ix else ix

theorem map_range'_reverse (element : Nat → E) {count first last : Nat} (hlast : last ≤ count) :
    ((List.range' (count - last) (count - first - (count - last))).map element).reverse =
      (List.range' first (last - first)).map (fun ix => element (count - 1 - ix)) := by
  apply List.ext_getElem
  · simp only [List.length_reverse, List.length_map, List.length_range']
    omega
  · intro i hi hi'
    simp only [List.length_reverse, List.length_map, List.length_range'] at hi hi'
    rw [List.getElem_reverse, List.getElem_map, List.getElem_map, List.getElem_range',
      List.getElem_range']
    congr 1
    simp only [List.length_map, List.length_range']
    omega

omit [Field X] [LinearOrder X] in
/-- Every slot of the range gets its item. -/
theorem renderVisible_eq (list : UniformList X) {renderItems : Nat → Nat → List E}
    {element : Nat → E} (hrender : RendersItems renderItems element) (yFlipped : Bool)
    {first last : Nat} (hlast : last ≤ list.itemCount) :
    list.renderVisible renderItems yFlipped first last =
      (List.range' first (last - first)).map
        (fun ix => element (list.itemAt yFlipped ix)) := by
  unfold renderVisible itemAt
  cases yFlipped with
  | false => exact hrender first last
  | true =>
    simp only [if_true]
    rw [hrender, map_range'_reverse element hlast]

/-! ### Section 4: The result -/

/-- What `prepaint` should make of the items. -/
structure DrawsVisible (list : UniformList X) (element : Nat → E) (yFlipped : Bool)
    (out : Prepainted X E) : Prop where
  visible : ∀ ix < list.itemCount, list.Shows out.scrollOffset ix →
    out.rangeStart ≤ ix ∧ ix < out.rangeEnd
  within : out.rangeEnd ≤ list.itemCount
  drawn : out.items = (List.range' out.rangeStart (out.rangeEnd - out.rangeStart)).map (fun ix =>
    ⟨element (list.itemAt yFlipped ix), ix, list.slotTop out.scrollOffset ix⟩)

/-- A scroll offset that is not beyond the largest one stays. -/
theorem clampScroll_eq {list : UniformList X} {scrollOffset : X}
    (hlow : min (list.paddedHeight - list.contentHeight) 0 ≤ scrollOffset)
    (hhigh : scrollOffset ≤ 0) : list.clampScroll scrollOffset = scrollOffset := by
  unfold clampScroll
  rw [if_neg]
  intro ⟨hne, hlt⟩
  rcases min_le_iff.mp hlow with hle | hle
  · exact absurd hlt (not_lt.mpr hle)
  · exact hne (le_antisymm hhigh hle)

variable [IsStrictOrderedRing X] [FloorRing X]

/-- **The visible items are drawn at their slots**, flipped or not, at every scroll offset
    between the largest one and 0, iff no item begins in the padding at the bottom. -/
theorem draws_visible_iff (list : UniformList X) (hheight : 0 < list.itemHeight)
    (renderItems : Nat → Nat → List E) (element : Nat → E)
    (hrender : RendersItems renderItems element) (yFlipped : Bool) (scrollOffset : X)
    (hlow : min (list.paddedHeight - list.contentHeight) 0 ≤ scrollOffset)
    (hhigh : scrollOffset ≤ 0) :
    ∃ out, list.prepaint renderItems yFlipped none scrollOffset = .ok out ∧
      out.scrollOffset = scrollOffset ∧
      (list.DrawsVisible element yFlipped out ↔
        ∀ ix < list.itemCount, ¬ list.InBottomPadding scrollOffset ix) := by
  by_cases hcount : 0 < list.itemCount
  · have hprepaint : ∃ out, list.prepaint renderItems yFlipped none scrollOffset = .ok out ∧
        out.scrollOffset = scrollOffset ∧ out.rangeStart = list.firstVisible scrollOffset ∧
        out.rangeEnd = min (list.lastVisible scrollOffset) list.itemCount ∧
        out.items = (List.range' out.rangeStart (out.rangeEnd - out.rangeStart)).map (fun ix =>
          ⟨element (list.itemAt yFlipped ix), ix, list.slotTop out.scrollOffset ix⟩) := by
      unfold prepaint updateScroll
      rw [if_pos hcount, clampScroll_eq hlow hhigh]
      refine ⟨_, rfl, rfl, rfl, rfl, ?_⟩
      dsimp only
      rw [list.renderVisible_eq hrender yFlipped (min_le_right _ _), List.zip_map_left,
        List.zip_eq_zipWith, List.zipWith_self, List.map_map, List.map_map]
      rfl
    obtain ⟨out, hout, hscroll, hstart, hend, hitems⟩ := hprepaint
    refine ⟨out, hout, hscroll, ?_⟩
    constructor
    · intro hdraws ix hix hpadding
      -- the slot shows, and is behind the range
      have hshows : list.Shows out.scrollOffset ix := by
        rw [hscroll, shows_iff hheight]
        exact ⟨hpadding.beforeBorder, hpadding.ends, hpadding.nonempty⟩
      have hlt := (hdraws.visible ix hix hshows).2
      rw [hend, lt_min_iff, lt_lastVisible_iff hheight] at hlt
      exact absurd hlt.1 (not_lt.mpr hpadding.begins)
    · intro hnone
      refine ⟨?_, ?_, hitems⟩
      · intro ix hix hshows
        rw [hscroll, shows_iff hheight] at hshows
        obtain ⟨htop, hbottom, hinner⟩ := hshows
        rw [hstart, hend, lt_min_iff, lt_lastVisible_iff hheight]
        refine ⟨firstVisible_le hheight hbottom, ?_, hix⟩
        by_contra hbegins
        exact hnone ix hix ⟨not_lt.mp hbegins, htop, hbottom, hinner⟩
      · rw [hend]
        exact min_le_right _ _
  · -- there is nothing to draw
    refine ⟨⟨scrollOffset, 0, 0, []⟩, if_neg hcount, rfl, ?_⟩
    constructor
    · intro _ ix hix
      omega
    · intro _
      refine ⟨?_, Nat.zero_le _, rfl⟩
      intro ix hix
      omega

/-- Three items of which two fit, without paddings. -/
theorem draws_visible_iff_fits :
    ∃ out, (⟨3, 10, 0, 20, 0, 0, 0, 0⟩ : UniformList ℚ).prepaint
        (fun first last => List.range' first (last - first)) true none (-5) = .ok out ∧
      out.scrollOffset = -5 ∧
      ((⟨3, 10, 0, 20, 0, 0, 0, 0⟩ : UniformList ℚ).DrawsVisible id true out ↔
        ∀ ix < 3, ¬ (⟨3, 10, 0, 20, 0, 0, 0, 0⟩ : UniformList ℚ).InBottomPadding (-5) ix) :=
  draws_visible_iff ⟨3, 10, 0, 20, 0, 0, 0, 0⟩ (by decide +kernel) _ id
    (fun _ _ => (List.map_id _).symm) true (-5) (by decide +kernel) (by decide +kernel)

/-- With a padding of 5 at the bottom, the third item begins in it and is not drawn. -/
theorem padding_item_missed :
    ¬ ∀ (list : UniformList ℚ) (scrollOffset : ℚ) (out : Prepainted ℚ Nat),
      0 < list.itemHeight →
      min (list.paddedHeight - list.contentHeight) 0 ≤ scrollOffset → scrollOffset ≤ 0 →
      list.prepaint (fun first last => List.range' first (last - first)) false none
        scrollOffset = .ok out →
      list.DrawsVisible id false out := by
  intro h
  have hdraws := h ⟨3, 10, 0, 25, 0, 0, 0, 5⟩ 0 _ (by decide +kernel) (by decide +kernel)
    (by decide +kernel) rfl
  have hshows : (⟨3, 10, 0, 25, 0, 0, 0, 5⟩ : UniformList ℚ).Shows 0 2 :=
    ⟨22, by decide +kernel, by decide +kernel, by decide +kernel, by decide +kernel⟩
  exact absurd (hdraws.visible 2 (by decide) hshows).2 (by decide +kernel)

end UniformList

end Gpui
