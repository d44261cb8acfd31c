import Gpui.Elements.UniformList

/-! # Scrolling to an item of a uniform list

    A deferred scroll should bring an item into the viewport, which an offset shrinks by some
    items: at the top for `Top` and `Center`, at the bottom for `Bottom`.  The code shrinks it
    at the top for every strategy when it asks whether the item is visible, and not at all
    when it places the item at the bottom.

    * `Reduced` and `target` are what the documentation says.
    * `Follows` is where a scroll should end, `AsDocumented` what `prepaint` should do.
    * **`scroll_asDocumented_iff`** is when it does. -/

namespace Gpui

namespace UniformList

variable {X : Type} [Field X] [LinearOrder X]

/-! ### Section 1: What is documented -/

/-- The slot of the item that is addressed, or of the last one. -/
def addressed (list : UniformList X) (yFlipped : Bool) (deferred : DeferredScrollToItem) : Nat :=
  if yFlipped then list.itemCount - 1 - min deferred.itemIndex (list.itemCount - 1)
  else min deferred.itemIndex (list.itemCount - 1)

/-- The largest scroll position. -/
def maxScroll (list : UniformList X) : X := max (list.contentHeight - list.paddedHeight) 0

/-- What the strategies place: an item, in a viewport that is shrunk by an offset. -/
structure Placement (X : Type) where
  itemTop : X
  itemHeight : X
  listHeight : X
  offsetPixels : X

/-- The item lies in the viewport that is shrunk at the documented edge. -/
def Reduced (p : Placement X) (strategy : ScrollStrategy) (scrollTop : X) : Prop :=
  match strategy with
  | .bottom =>
      scrollTop ≤ p.itemTop ∧
        p.itemTop + p.itemHeight ≤ scrollTop + p.listHeight - p.offsetPixels
  | _ =>
      scrollTop + p.offsetPixels ≤ p.itemTop ∧
        p.itemTop + p.itemHeight ≤ scrollTop + p.listHeight

/-- Where the item is at the top, the center or the bottom of the shrunk viewport. -/
def target (p : Placement X) : ScrollStrategy → Option X
  | .top     => some (p.itemTop - p.offsetPixels)
  | .center  =>
      some (p.itemTop + p.itemHeight / (2 : Nat) -
        (p.offsetPixels + (p.listHeight - p.offsetPixels) / (2 : Nat)))
  | .bottom  => some (p.itemTop + p.itemHeight - (p.listHeight - p.offsetPixels))
  | .nearest => none

/-- The item of a deferred scroll. -/
def placement (list : UniformList X) (yFlipped : Bool) (deferred : DeferredScrollToItem) :
    Placement X where
  itemTop := list.itemHeight * list.addressed yFlipped deferred
  itemHeight := list.itemHeight
  listHeight := list.paddedHeight
  offsetPixels := list.itemHeight * deferred.offset

/-- The scroll position after a scroll that is as documented. -/
structure Follows (p : Placement X) (strategy : ScrollStrategy) (strict : Bool)
    (maxScroll scrollTop next : X) : Prop where
  nonneg : 0 ≤ next
  le : next ≤ maxScroll
  visible : (∃ other, 0 ≤ other ∧ other ≤ maxScroll ∧ Reduced p strategy other) →
    Reduced p strategy next
  exact : strict = true → ∀ t, target p strategy = some t → next = clamp t 0 maxScroll
  still : strict = false → Reduced p strategy scrollTop → next = scrollTop

/-! ### Section 2: Where the code places an item -/

/-- What the code sees of a placement: the item that it was told of, which can be behind the
    last one, in a list with some content. -/
structure Seen (p : Placement X) (itemTop content maxScroll scrollTop : X) : Prop where
  height : 0 < p.itemHeight
  offset : 0 ≤ p.offsetPixels
  fits : p.itemHeight + p.offsetPixels ≤ p.listHeight
  top : 0 ≤ p.itemTop
  max : content ≤ p.listHeight ∧ maxScroll = 0 ∨
    p.listHeight ≤ content ∧ maxScroll = content - p.listHeight
  item : itemTop = p.itemTop ∧ p.itemTop + p.itemHeight ≤ content ∨
    content ≤ itemTop ∧ p.itemTop + p.itemHeight = content
  nonneg : 0 ≤ scrollTop
  le : scrollTop ≤ maxScroll

/-- The scroll position that the code goes to from one at which it scrolls. -/
def goal (p : Placement X) (itemTop maxScroll scrollTop : X) : ScrollStrategy → X
  | .top     => clamp (itemTop - p.offsetPixels) 0 maxScroll
  | .center  =>
      clamp (itemTop + p.itemHeight / (2 : Nat) -
        (p.offsetPixels + (p.listHeight - p.offsetPixels) / (2 : Nat))) 0 maxScroll
  | .bottom  => clamp (itemTop + p.itemHeight - p.listHeight) 0 maxScroll
  | .nearest => scrollTop

/-- The scroll position that the code goes to. -/
def nextScroll (p : Placement X) (itemTop maxScroll scrollTop : X) (strategy : ScrollStrategy)
    (strict : Bool) : X :=
  let isAbove : Bool := itemTop < scrollTop + p.offsetPixels
  let isBelow : Bool := scrollTop + p.listHeight < itemTop + p.itemHeight
  if strict || isAbove || isBelow then
    goal p itemTop maxScroll scrollTop (resolveStrategy strategy isAbove isBelow)
  else scrollTop

/-- Either it scrolls, or the item is neither above nor below. -/
theorem nextScroll_cases (p : Placement X) (itemTop maxScroll scrollTop : X)
    (strategy : ScrollStrategy) (strict : Bool) (hnearest : strategy ≠ .nearest) :
    (nextScroll p itemTop maxScroll scrollTop strategy strict =
        goal p itemTop maxScroll scrollTop strategy ∧
      (strict = true ∨ itemTop < scrollTop + p.offsetPixels ∨
        scrollTop + p.listHeight < itemTop + p.itemHeight)) ∨
    (nextScroll p itemTop maxScroll scrollTop strategy strict = scrollTop ∧ strict = false ∧
      scrollTop + p.offsetPixels ≤ itemTop ∧
        itemTop + p.itemHeight ≤ scrollTop + p.listHeight) := by
  unfold nextScroll resolveStrategy
  dsimp only
  split
  · next h =>
    left
    simpa [or_assoc] using h
  · next h =>
    right
    simp only [Bool.or_eq_true, decide_eq_true_eq, not_or, not_lt, Bool.not_eq_true] at h
    exact ⟨rfl, h.1.1, h.1.2, h.2⟩

omit [Field X] in
theorem clamp_cases (t lo hi : X) :
    t ≤ lo ∧ clamp t lo hi = lo ∨ hi ≤ t ∧ clamp t lo hi = hi ∨
      lo ≤ t ∧ t ≤ hi ∧ clamp t lo hi = t := by
  unfold clamp
  split
  · next hlt => exact Or.inl ⟨hlt.le, rfl⟩
  · next hge =>
    split
    · next hgt => exact Or.inr (Or.inl ⟨hgt.le, rfl⟩)
    · next hle => exact Or.inr (Or.inr ⟨not_lt.mp hge, not_lt.mp hle, rfl⟩)

variable {t lo hi : X}

section

omit [Field X]

theorem clamp_mem (h : lo ≤ hi) : lo ≤ clamp t lo hi ∧ clamp t lo hi ≤ hi := by
  rcases clamp_cases t lo hi with ⟨_, heq⟩ | ⟨_, heq⟩ | ⟨hlo, hhi, heq⟩
  · rw [heq]
    exact ⟨le_refl _, h⟩
  · rw [heq]
    exact ⟨h, le_refl _⟩
  · rw [heq]
    exact ⟨hlo, hhi⟩

theorem clamp_eq_low (h : lo ≤ hi) (ht : t ≤ lo) : clamp t lo hi = lo := by
  rcases clamp_cases t lo hi with ⟨_, heq⟩ | ⟨hle, heq⟩ | ⟨hle, _, heq⟩
  · exact heq
  · rw [heq]
    exact le_antisymm (hle.trans ht) h
  · rw [heq]
    exact le_antisymm ht hle

theorem clamp_eq_high (h : lo ≤ hi) (ht : hi ≤ t) : clamp t lo hi = hi := by
  rcases clamp_cases t lo hi with ⟨hle, heq⟩ | ⟨_, heq⟩ | ⟨_, hle, heq⟩
  · rw [heq]
    exact le_antisymm h (ht.trans hle)
  · exact heq
  · rw [heq]
    exact le_antisymm hle ht

/-- Two positions that are taken back to the same one. -/
theorem clamp_same {t' : X} (h : lo ≤ hi) (hsame : t ≤ lo ∧ t' ≤ lo ∨ hi ≤ t ∧ hi ≤ t' ∨ hi = lo) :
    clamp t lo hi = clamp t' lo hi := by
  rcases hsame with ⟨ht, ht'⟩ | ⟨ht, ht'⟩ | rfl
  · rw [clamp_eq_low h ht, clamp_eq_low h ht']
  · rw [clamp_eq_high h ht, clamp_eq_high h ht']
  · have heq : ∀ t : X, clamp t hi hi = hi := by
      intro t
      have hmem : hi ≤ clamp t hi hi ∧ clamp t hi hi ≤ hi := clamp_mem (le_refl hi)
      exact le_antisymm hmem.2 hmem.1
    rw [heq, heq]

/-- Two positions that are not taken back to the same one. -/
theorem clamp_lt_clamp {t' : X} (h : lo < hi) (hlt : t < t') (hlo : lo < t')
    (hhi : t < hi) : clamp t lo hi < clamp t' lo hi := by
  rcases clamp_cases t' lo hi with ⟨hle, _⟩ | ⟨_, heq'⟩ | ⟨_, _, heq'⟩
  · exact absurd hlo (not_lt.mpr hle)
  all_goals
    rcases clamp_cases t lo hi with ⟨_, heq⟩ | ⟨hle, _⟩ | ⟨_, _, heq⟩
    · rwa [heq, heq']
    · exact absurd hhi (not_lt.mpr hle)
    · rwa [heq, heq']

/-- Only the lower bound takes a position up. -/
theorem clamp_le_of_lt (h : lo < clamp t lo hi) : clamp t lo hi ≤ t := by
  rcases clamp_cases t lo hi with ⟨_, heq⟩ | ⟨hle, heq⟩ | ⟨_, _, heq⟩
  · rw [heq] at h
    exact absurd h (lt_irrefl _)
  · rwa [heq]
  · exact heq.le

end

section

variable {p : Placement X} {itemTop content maxScroll scrollTop : X} {strict : Bool}

theorem Seen.max_nonneg (h : Seen p itemTop content maxScroll scrollTop) : 0 ≤ maxScroll :=
  h.nonneg.trans h.le

/-- Where the code goes is a scroll position. -/
theorem Seen.mem (h : Seen p itemTop content maxScroll scrollTop) (strategy : ScrollStrategy)
    (strict : Bool) :
    0 ≤ nextScroll p itemTop maxScroll scrollTop strategy strict ∧
      nextScroll p itemTop maxScroll scrollTop strategy strict ≤ maxScroll := by
  have hgoal : ∀ strategy, 0 ≤ goal p itemTop maxScroll scrollTop strategy ∧
      goal p itemTop maxScroll scrollTop strategy ≤ maxScroll := by
    intro strategy
    cases strategy with
    | nearest => exact ⟨h.nonneg, h.le⟩
    | top => exact clamp_mem h.max_nonneg
    | center => exact clamp_mem h.max_nonneg
    | bottom => exact clamp_mem h.max_nonneg
  unfold nextScroll
  dsimp only
  split
  · exact hgoal _
  · exact ⟨h.nonneg, h.le⟩

variable [IsStrictOrderedRing X]

/-- An item that is not below the viewport is one of the list, or all items fit. -/
theorem Seen.item_or_small (h : Seen p itemTop content maxScroll scrollTop)
    (hbottom : itemTop + p.itemHeight ≤ scrollTop + p.listHeight) :
    itemTop = p.itemTop ∨ content ≤ p.listHeight ∧ maxScroll = 0 := by
  have hle := h.le
  have hheight := h.height
  rcases h.item with ⟨hsame, _⟩ | ⟨hbehind, _⟩
  · exact Or.inl hsame
  · rcases h.max with hsmall | ⟨_, hmax⟩
    · exact Or.inr hsmall
    · linarith

/-! ### Section 3: The viewport that is shrunk at the top -/

/-- A position that places the item anywhere in the viewport, for the item that the code was
    told of and for the one that is addressed. -/
structure Between (p : Placement X) (itemTop seen t : X) : Prop where
  shift : seen = t + (itemTop - p.itemTop)
  low : p.itemTop + p.itemHeight - p.listHeight ≤ t
  high : t ≤ p.itemTop - p.offsetPixels

variable {t : X} {strategy : ScrollStrategy}

section

variable (h : Seen p itemTop content maxScroll scrollTop)
include h

/-- The item that is addressed is placed as the one that the code was told of. -/
theorem Seen.clamp_eq {seen : X} (hbetween : Between p itemTop seen t) :
    clamp seen 0 maxScroll = clamp t 0 maxScroll := by
  obtain ⟨hshift, hlow, hhigh⟩ := hbetween
  rcases h.item with ⟨hsame, _⟩ | ⟨hbehind, hlast⟩
  · rw [hshift, hsame, sub_self, add_zero]
  · -- both are beyond the largest scroll position
    apply clamp_same h.max_nonneg
    have hheight := h.height
    rcases h.max with ⟨_, hmax⟩ | ⟨_, hmax⟩
    · exact Or.inr (Or.inr hmax)
    · right
      left
      constructor <;> linarith

omit h in
/-- The item gets into the viewport, if it fits there at any scroll position. -/
theorem visible_clamp (hlow : p.itemTop + p.itemHeight - p.listHeight ≤ t)
    (hhigh : t ≤ p.itemTop - p.offsetPixels)
    (hfits : ∃ other, 0 ≤ other ∧ other ≤ maxScroll ∧ Reduced p .top other) :
    Reduced p .top (clamp t 0 maxScroll) := by
  obtain ⟨other, hother, hother', htop, hbottom⟩ := hfits
  show _ ∧ _
  rcases clamp_cases t 0 maxScroll with ⟨ht, heq⟩ | ⟨ht, heq⟩ | ⟨_, _, heq⟩
  · rw [heq]
    constructor <;> linarith
  · rw [heq]
    constructor <;> linarith
  · rw [heq]
    constructor <;> linarith

/-- Where the item is in the viewport, the code does not leave it. -/
theorem Seen.still_clamp {seen : X} (hbetween : Between p itemTop seen t)
    (hinside : Reduced p .top scrollTop) (hmoves : itemTop < scrollTop + p.offsetPixels ∨
      scrollTop + p.listHeight < itemTop + p.itemHeight) :
    clamp seen 0 maxScroll = scrollTop := by
  obtain ⟨htop, hbottom⟩ := hinside
  obtain ⟨hshift, hlow, hhigh⟩ := hbetween
  have hnonneg := h.nonneg
  have hle := h.le
  have hheight := h.height
  rcases h.item with ⟨hsame, _⟩ | ⟨hbehind, hlast⟩
  · rw [hsame] at hmoves
    rcases hmoves with habove | hbelow <;> linarith
  · -- the last item is in the viewport at the largest scroll position alone
    have hscroll : scrollTop = maxScroll := by
      rcases h.max with ⟨_, hmax⟩ | ⟨_, hmax⟩ <;> linarith
    rw [hscroll]
    rcases clamp_cases seen 0 maxScroll with ⟨hseen, heq⟩ | ⟨_, heq⟩ | ⟨_, hseen, heq⟩
    · rw [heq]
      rcases h.max with ⟨_, hmax⟩ | ⟨_, hmax⟩ <;> linarith
    · exact heq
    · rw [heq]
      rcases h.max with ⟨_, hmax⟩ | ⟨_, hmax⟩ <;> linarith

/-- Where the code stays, the item is in the viewport if it can be. -/
theorem Seen.visible_still (htop : scrollTop + p.offsetPixels ≤ itemTop)
    (hbottom : itemTop + p.itemHeight ≤ scrollTop + p.listHeight)
    (hfits : ∃ other, 0 ≤ other ∧ other ≤ maxScroll ∧ Reduced p .top other) :
    Reduced p .top scrollTop := by
  obtain ⟨other, hother, hother', hreduced⟩ := hfits
  rcases h.item_or_small hbottom with hsame | ⟨_, hmax⟩
  · rw [hsame] at htop hbottom
    exact ⟨htop, hbottom⟩
  · -- there is one scroll position
    have hzero : scrollTop = other := by
      have hle := h.le
      have hnonneg := h.nonneg
      linarith
    rw [hzero]
    exact hreduced

theorem Seen.between_top :
    Between p itemTop (itemTop - p.offsetPixels) (p.itemTop - p.offsetPixels) where
  shift := by ring
  low := by linarith [h.fits]
  high := le_refl _

theorem Seen.between_center :
    Between p itemTop
      (itemTop + p.itemHeight / (2 : Nat) -
        (p.offsetPixels + (p.listHeight - p.offsetPixels) / (2 : Nat)))
      (p.itemTop + p.itemHeight / (2 : Nat) -
        (p.offsetPixels + (p.listHeight - p.offsetPixels) / (2 : Nat))) where
  shift := by ring
  low := by
    linarith [h.fits]
  high := by
    linarith [h.fits]

theorem Seen.between_bottom :
    Between p itemTop (itemTop + p.itemHeight - p.listHeight)
      (p.itemTop + p.itemHeight - p.listHeight) where
  shift := by ring
  low := le_refl _
  high := by linarith [h.fits]

/-- What the code does for the strategies whose viewport is shrunk at the top: it goes to
    a position that places the item in the viewport, the target if there is one, or the
    item is neither above nor below. -/
theorem Seen.next_cases (hbottom : strategy ≠ .bottom) (strict : Bool) :
    (∃ seen t, Between p itemTop seen t ∧
      nextScroll p itemTop maxScroll scrollTop strategy strict = clamp seen 0 maxScroll ∧
      (∀ t', target p strategy = some t' → t' = t) ∧
      (strict = true ∨ itemTop < scrollTop + p.offsetPixels ∨
        scrollTop + p.listHeight < itemTop + p.itemHeight)) ∨
    (nextScroll p itemTop maxScroll scrollTop strategy strict = scrollTop ∧
      (strict = true → target p strategy = none) ∧
      scrollTop + p.offsetPixels ≤ itemTop ∧
        itemTop + p.itemHeight ≤ scrollTop + p.listHeight) := by
  cases strategy with
  | bottom => exact absurd rfl hbottom
  | top =>
    rcases nextScroll_cases p itemTop maxScroll scrollTop .top strict (by decide) with
      ⟨hnext, hmoves⟩ | ⟨hnext, hstrict, hstays⟩
    · exact Or.inl ⟨_, _, h.between_top, hnext, fun t' ht' => (Option.some.inj ht').symm, hmoves⟩
    · exact Or.inr ⟨hnext, by simp [hstrict], hstays⟩
  | center =>
    rcases nextScroll_cases p itemTop maxScroll scrollTop .center strict (by decide) with
      ⟨hnext, hmoves⟩ | ⟨hnext, hstrict, hstays⟩
    · exact Or.inl ⟨_, _, h.between_center, hnext, fun t' ht' => (Option.some.inj ht').symm,
        hmoves⟩
    · exact Or.inr ⟨hnext, by simp [hstrict], hstays⟩
  | nearest =>
    have hnone : ∀ t t' : X, target p .nearest = some t' → t' = t := by
      intro t t' ht'
      cases ht'
    by_cases habove : itemTop < scrollTop + p.offsetPixels
    · -- the item is placed at the top
      refine Or.inl ⟨_, _, h.between_top, ?_, hnone _, Or.inr (Or.inl habove)⟩
      simp [nextScroll, resolveStrategy, goal, habove]
    · by_cases hbelow : scrollTop + p.listHeight < itemTop + p.itemHeight
      · -- the item is placed at the bottom
        refine Or.inl ⟨_, _, h.between_bottom, ?_, hnone _, Or.inr (Or.inr hbelow)⟩
        simp [nextScroll, resolveStrategy, goal, habove, hbelow]
      · refine Or.inr ⟨?_, fun _ => rfl, not_lt.mp habove, not_lt.mp hbelow⟩
        simp [nextScroll, resolveStrategy, goal, habove, hbelow]

end

omit [Field X] [IsStrictOrderedRing X] in
/-- The other strategies shrink the viewport at the top. -/
theorem reduced_eq_top [Field X] (hbottom : strategy ≠ .bottom) :
    Reduced p strategy = Reduced p .top := by
  cases strategy with
  | bottom => exact absurd rfl hbottom
  | _ => rfl

/-- The strategies whose viewport is shrunk at the top are as documented. -/
theorem Seen.follows_top (h : Seen p itemTop content maxScroll scrollTop)
    (hbottom : strategy ≠ .bottom) :
    Follows p strategy strict maxScroll scrollTop
      (nextScroll p itemTop maxScroll scrollTop strategy strict) := by
  have hmem := h.mem strategy strict
  rcases h.next_cases hbottom strict with
    ⟨seen, t, hbetween, hnext, htarget, hmoves⟩ | ⟨hnext, htarget, htop, hlow⟩
  · refine ⟨hmem.1, hmem.2, ?_, ?_, ?_⟩
    · rw [reduced_eq_top hbottom, hnext, h.clamp_eq hbetween]
      exact visible_clamp hbetween.low hbetween.high
    · intro _ t' ht'
      rw [hnext, h.clamp_eq hbetween, htarget t' ht']
    · intro hstrict hinside
      rw [reduced_eq_top hbottom] at hinside
      rw [hnext]
      apply h.still_clamp hbetween hinside
      simpa [hstrict] using hmoves
  · refine ⟨hmem.1, hmem.2, ?_, ?_, fun _ _ => hnext⟩
    · rw [reduced_eq_top hbottom, hnext]
      exact h.visible_still htop hlow
    · intro hstrict t' ht'
      rw [htarget hstrict] at ht'
      cases ht'

/-! ### Section 4: The viewport that is shrunk at the bottom -/

/-- What places an item at the bottom of the viewport places it in the viewport that is
    shrunk there. -/
structure BottomFits (p : Placement X) (strict : Bool) (maxScroll scrollTop : X) : Prop where
  /-- The item fits above what is shrunk at the start, or it is the last one, or all items
      fit. -/
  placed : strict = true →
    p.itemTop + p.itemHeight + p.offsetPixels ≤ p.listHeight ∨
      maxScroll + p.listHeight ≤ p.itemTop + p.itemHeight ∨ maxScroll = 0
  /-- An item that is there already is not too near to the top. -/
  still : strict = false → Reduced p .bottom scrollTop →
    scrollTop = 0 ∨ scrollTop + p.offsetPixels ≤ p.itemTop
  /-- Another one gets there at the start, or nowhere. -/
  visible : strict = false → ¬ Reduced p .bottom scrollTop →
    p.itemTop + p.itemHeight + p.offsetPixels ≤ p.listHeight ∨
      maxScroll + p.listHeight < p.itemTop + p.itemHeight + p.offsetPixels

/-- Where the code goes for the bottom: the position that places the item at the bottom of
    the viewport as it is. -/
theorem Seen.goal_bottom (h : Seen p itemTop content maxScroll scrollTop) :
    goal p itemTop maxScroll scrollTop .bottom =
      clamp (p.itemTop + p.itemHeight - p.listHeight) 0 maxScroll :=
  h.clamp_eq h.between_bottom

omit [IsStrictOrderedRing X] in
/-- Without an offset the two viewports are the same. -/
theorem reduced_bottom_of_zero (hoffset : p.offsetPixels = 0) (scrollTop : X) :
    Reduced p .bottom scrollTop ↔ Reduced p .top scrollTop := by
  show _ ∧ _ ↔ _ ∧ _
  rw [hoffset, add_zero, sub_zero]

section

variable (h : Seen p itemTop content maxScroll scrollTop)
include h

theorem Seen.bottom_of_zero (hoffset : p.offsetPixels = 0) :
    Follows p .bottom strict maxScroll scrollTop
      (nextScroll p itemTop maxScroll scrollTop .bottom strict) := by
  have hmem := h.mem .bottom strict
  have hreduced := reduced_bottom_of_zero (p := p) hoffset
  rcases nextScroll_cases p itemTop maxScroll scrollTop .bottom strict (by decide) with
    ⟨hnext, hmoves⟩ | ⟨hnext, hstrict, htop, hbottom⟩
  · have hbetween := h.between_bottom
    refine ⟨hmem.1, hmem.2, ?_, ?_, ?_⟩
    · simp only [hreduced]
      rw [hnext, h.goal_bottom]
      exact visible_clamp hbetween.low hbetween.high
    · intro _ t ht
      obtain rfl := Option.some.inj ht
      rw [hnext, h.goal_bottom, hoffset, sub_zero]
    · intro hstrict hinside
      rw [hnext]
      apply h.still_clamp hbetween ((hreduced scrollTop).mp hinside)
      simpa [hstrict] using hmoves
  · refine ⟨hmem.1, hmem.2, ?_, ?_, fun _ _ => hnext⟩
    · simp only [hreduced]
      rw [hnext]
      exact h.visible_still htop hbottom
    · intro htrue
      rw [hstrict] at htrue
      cases htrue

/-- An item that fits above what is shrunk gets there at the start. -/
theorem Seen.reduced_of_start (hstart : p.itemTop + p.itemHeight + p.offsetPixels ≤ p.listHeight) :
    Reduced p .bottom (clamp (p.itemTop + p.itemHeight - p.listHeight) 0 maxScroll) := by
  have hoffset := h.offset
  have htop := h.top
  rw [clamp_eq_low h.max_nonneg (by linarith)]
  show _ ∧ _
  constructor <;> linarith

/-- Where the item is in the shrunk viewport already, the code does not leave it. -/
theorem Seen.bottom_still (hfits : scrollTop = 0 ∨ scrollTop + p.offsetPixels ≤ p.itemTop)
    (hinside : Reduced p .bottom scrollTop) (hmoves : itemTop < scrollTop + p.offsetPixels ∨
      scrollTop + p.listHeight < itemTop + p.itemHeight) :
    clamp (p.itemTop + p.itemHeight - p.listHeight) 0 maxScroll = scrollTop := by
  obtain ⟨hscroll, hbottom⟩ := hinside
  have hoffset := h.offset
  have hnonneg := h.nonneg
  have hle := h.le
  rcases h.item with ⟨hsame, _⟩ | ⟨hbehind, hlast⟩
  · rw [hsame] at hmoves
    rcases hmoves with habove | hbelow
    · rcases hfits with hzero | hfits
      · rw [hzero]
        exact clamp_eq_low h.max_nonneg (by linarith)
      · linarith
    · linarith
  · -- the last item
    rcases h.max with ⟨hsmall, hmax⟩ | ⟨_, hmax⟩
    · have hzero : scrollTop = 0 := by linarith
      rw [hzero]
      exact clamp_eq_low h.max_nonneg (by linarith)
    · have hend : scrollTop = maxScroll := by linarith
      rw [hend]
      exact clamp_eq_high h.max_nonneg (by linarith)

/-- Where the offset makes no difference to the target, the position that places the item at
    the bottom places it in the shrunk viewport, if any does. -/
theorem Seen.reduced_of_placed (hplaced : p.itemTop + p.itemHeight + p.offsetPixels ≤ p.listHeight ∨
      maxScroll + p.listHeight ≤ p.itemTop + p.itemHeight ∨ maxScroll = 0)
    (hfits : ∃ other, 0 ≤ other ∧ other ≤ maxScroll ∧ Reduced p .bottom other) :
    Reduced p .bottom (clamp (p.itemTop + p.itemHeight - p.listHeight) 0 maxScroll) := by
  obtain ⟨other, hother, hother', hothertop, hotherbottom⟩ := hfits
  have hoffset := h.offset
  rcases hplaced with hstart | hend | hzero
  · exact h.reduced_of_start hstart
  · rw [clamp_eq_high h.max_nonneg (by linarith)]
    show _ ∧ _
    constructor <;> linarith
  · -- there is one scroll position
    have hsame : other = 0 := le_antisymm (hzero ▸ hother') hother
    have hclamp : 0 ≤ clamp (p.itemTop + p.itemHeight - p.listHeight) 0 maxScroll ∧ _ :=
      clamp_mem h.max_nonneg
    rw [le_antisymm (hzero ▸ hclamp.2) hclamp.1, ← hsame]
    exact ⟨hothertop, hotherbottom⟩

/-- The target of the shrunk viewport is then the same. -/
theorem Seen.clamp_of_placed (hplaced : p.itemTop + p.itemHeight + p.offsetPixels ≤ p.listHeight ∨
      maxScroll + p.listHeight ≤ p.itemTop + p.itemHeight ∨ maxScroll = 0) :
    clamp (p.itemTop + p.itemHeight - p.listHeight) 0 maxScroll =
      clamp (p.itemTop + p.itemHeight - (p.listHeight - p.offsetPixels)) 0 maxScroll := by
  have hoffset := h.offset
  apply clamp_same h.max_nonneg
  rcases hplaced with hstart | hend | hzero
  · left
    constructor <;> linarith
  · right
    left
    constructor <;> linarith
  · exact Or.inr (Or.inr hzero)

/-- A position at which the item is neither above nor below has it in the shrunk viewport. -/
theorem Seen.reduced_of_stays (hfits : ¬ Reduced p .bottom scrollTop →
      p.itemTop + p.itemHeight + p.offsetPixels ≤ p.listHeight ∨
        maxScroll + p.listHeight < p.itemTop + p.itemHeight + p.offsetPixels)
    (htop : scrollTop + p.offsetPixels ≤ itemTop)
    (hbottom : itemTop + p.itemHeight ≤ scrollTop + p.listHeight)
    (hother : ∃ other, 0 ≤ other ∧ other ≤ maxScroll ∧ Reduced p .bottom other) :
    Reduced p .bottom scrollTop := by
  obtain ⟨other, hother, hother', hothertop, hotherbottom⟩ := hother
  have hoffset := h.offset
  have hle := h.le
  have hnonneg := h.nonneg
  by_contra hinside
  rcases hfits hinside with hstart | hnowhere
  · -- the item would be above
    have houtside : p.itemTop < scrollTop := by
      by_contra hscroll
      exact hinside ⟨not_lt.mp hscroll, by linarith⟩
    rcases h.item_or_small hbottom with hsame | ⟨_, hmax⟩
    · linarith
    · linarith
  · linarith

theorem Seen.bottom_of_fits (hfits : BottomFits p strict maxScroll scrollTop) :
    Follows p .bottom strict maxScroll scrollTop
      (nextScroll p itemTop maxScroll scrollTop .bottom strict) := by
  have hmem := h.mem .bottom strict
  rcases nextScroll_cases p itemTop maxScroll scrollTop .bottom strict (by decide) with
    ⟨hnext, hmoves⟩ | ⟨hnext, hstrict, htop, hbottom⟩
  · rw [h.goal_bottom] at hnext
    have hstill : strict = false → Reduced p .bottom scrollTop →
        clamp (p.itemTop + p.itemHeight - p.listHeight) 0 maxScroll = scrollTop := by
      intro hstrict hinside
      apply h.bottom_still (hfits.still hstrict hinside) hinside
      simpa [hstrict] using hmoves
    rw [hnext]
    refine ⟨hnext ▸ hmem.1, hnext ▸ hmem.2, ?_, ?_, hstill⟩
    · intro hother
      cases hstrict : strict with
      | true => exact h.reduced_of_placed (hfits.placed hstrict) hother
      | false =>
        by_cases hinside : Reduced p .bottom scrollTop
        · rw [hstill hstrict hinside]
          exact hinside
        · rcases hfits.visible hstrict hinside with hstart | hnowhere
          · exact h.reduced_of_start hstart
          · -- there is no scroll position for the item
            obtain ⟨other, _, hother', _, hotherbottom⟩ := hother
            linarith
    · intro hstrict t ht
      obtain rfl := Option.some.inj ht
      exact h.clamp_of_placed (hfits.placed hstrict)
  · refine ⟨hmem.1, hmem.2, ?_, ?_, fun _ _ => hnext⟩
    · rw [hnext]
      exact h.reduced_of_stays (hfits.visible hstrict) htop hbottom
    · intro htrue
      rw [hstrict] at htrue
      cases htrue

/-- Where a strict scroll ends at the target, the offset makes no difference to it. -/
theorem Seen.placed_of_exact (hoffset : 0 < p.offsetPixels)
    (hexact : clamp (p.itemTop + p.itemHeight - p.listHeight) 0 maxScroll =
      clamp (p.itemTop + p.itemHeight - (p.listHeight - p.offsetPixels)) 0 maxScroll) :
    p.itemTop + p.itemHeight + p.offsetPixels ≤ p.listHeight ∨
      maxScroll + p.listHeight ≤ p.itemTop + p.itemHeight ∨ maxScroll = 0 := by
  by_contra hfits
  push Not at hfits
  obtain ⟨hstart, hend, hzero⟩ := hfits
  have hpos : 0 < maxScroll := lt_of_le_of_ne h.max_nonneg (Ne.symm hzero)
  have hlt : clamp (p.itemTop + p.itemHeight - p.listHeight) 0 maxScroll <
      clamp (p.itemTop + p.itemHeight - (p.listHeight - p.offsetPixels)) 0 maxScroll :=
    clamp_lt_clamp hpos (by linarith) (by linarith) (by linarith)
  exact absurd hexact hlt.ne

/-- Where a scroll leaves an item that is in the shrunk viewport, the item is not too near to
    the top. -/
theorem Seen.still_of_same (hoffset : 0 < p.offsetPixels) (hinside : Reduced p .bottom scrollTop)
    (hsame : nextScroll p itemTop maxScroll scrollTop .bottom strict = scrollTop) :
    scrollTop = 0 ∨ scrollTop + p.offsetPixels ≤ p.itemTop := by
  obtain ⟨_, hbottom⟩ := hinside
  by_contra hfits
  push Not at hfits
  obtain ⟨hne, habove⟩ := hfits
  have hpos : 0 < scrollTop := lt_of_le_of_ne h.nonneg (Ne.symm hne)
  rcases nextScroll_cases p itemTop maxScroll scrollTop .bottom strict (by decide) with
    ⟨hnext, _⟩ | ⟨_, _, htop, hlow⟩
  · -- it goes to the position that places the item at the bottom, which is further up
    rw [hnext, h.goal_bottom] at hsame
    have hle := clamp_le_of_lt (hsame.symm ▸ hpos)
    linarith
  · have hle := h.le
    rcases h.item_or_small hlow with heq | ⟨_, hmax⟩
    · linarith
    · linarith

/-- Where a scroll brings an item into the shrunk viewport, it gets there at the start. -/
theorem Seen.visible_of_visible (hoffset : 0 < p.offsetPixels)
    (hinside : ¬ Reduced p .bottom scrollTop)
    (hvisible : (∃ other, 0 ≤ other ∧ other ≤ maxScroll ∧ Reduced p .bottom other) →
      Reduced p .bottom (nextScroll p itemTop maxScroll scrollTop .bottom strict)) :
    p.itemTop + p.itemHeight + p.offsetPixels ≤ p.listHeight ∨
      maxScroll + p.listHeight < p.itemTop + p.itemHeight + p.offsetPixels := by
  by_contra hfits
  push Not at hfits
  -- there is a scroll position for the item
  have hreduced := hvisible ⟨p.itemTop + p.itemHeight + p.offsetPixels - p.listHeight,
    by linarith, by linarith, by linarith [h.fits], by linarith⟩
  rcases nextScroll_cases p itemTop maxScroll scrollTop .bottom strict (by decide) with
    ⟨hnext, _⟩ | ⟨hnext, _⟩
  · rw [hnext, h.goal_bottom] at hreduced
    obtain ⟨_, hbottom⟩ := hreduced
    have hpos : 0 < clamp (p.itemTop + p.itemHeight - p.listHeight) 0 maxScroll := by linarith
    have hle := clamp_le_of_lt hpos
    linarith
  · rw [hnext] at hreduced
    exact hinside hreduced

theorem Seen.fits_of_bottom (hoffset : 0 < p.offsetPixels)
    (hfollows : Follows p .bottom strict maxScroll scrollTop
      (nextScroll p itemTop maxScroll scrollTop .bottom strict)) :
    BottomFits p strict maxScroll scrollTop where
  placed := by
    intro hstrict
    have hexact := hfollows.exact hstrict _ rfl
    rcases nextScroll_cases p itemTop maxScroll scrollTop .bottom strict (by decide) with
      ⟨hnext, _⟩ | ⟨_, hfalse, _⟩
    · rw [hnext, h.goal_bottom] at hexact
      exact h.placed_of_exact hoffset hexact
    · rw [hstrict] at hfalse
      cases hfalse
  still := fun hstrict hinside =>
    h.still_of_same hoffset hinside (hfollows.still hstrict hinside)
  visible := fun _ hinside => h.visible_of_visible hoffset hinside hfollows.visible

end

end

/-! ### Section 5: The list -/

section List

variable (list : UniformList X) (yFlipped : Bool) (deferred : DeferredScrollToItem)

/-- The index that the code places. -/
def placedIndex : Nat :=
  if yFlipped then list.itemCount - (deferred.itemIndex + 1) else deferred.itemIndex

/-- A scroll goes to the next position, or the index overflows. -/
theorem scrollToItem_eq (scrollTop : X) :
    list.scrollToItem yFlipped deferred (-scrollTop) =
      if yFlipped = true ∧ 2 ^ 64 ≤ deferred.itemIndex + 1 then .error .addOverflow
      else .ok (-nextScroll (list.placement yFlipped deferred)
        (list.itemHeight * (list.placedIndex yFlipped deferred : Nat)) list.maxScroll scrollTop
        deferred.strategy deferred.scrollStrict) := by
  unfold scrollToItem placedIndex addUsize nextScroll placement
  cases yFlipped with
  | false =>
    simp only [Bool.false_eq_true, if_false, false_and, neg_neg, Exec.ok_bind]
    split
    · cases resolveStrategy deferred.strategy _ _ <;> rfl
    · rfl
  | true =>
    by_cases hindex : deferred.itemIndex + 1 < 2 ^ 64
    · simp only [if_true, hindex, true_and, not_le.mpr hindex, if_false, neg_neg, Exec.ok_bind]
      split
      · cases resolveStrategy deferred.strategy _ _ <;> rfl
      · rfl
    · rw [if_pos rfl, if_neg hindex, if_pos ⟨rfl, not_lt.mp hindex⟩]
      rfl

omit [Field X] [LinearOrder X] in
/-- The item that is placed is the one that is addressed, or is behind the last one. -/
theorem placedIndex_cases (hcount : 0 < list.itemCount) :
    list.placedIndex yFlipped deferred = list.addressed yFlipped deferred ∧
        list.addressed yFlipped deferred + 1 ≤ list.itemCount ∨
      list.itemCount ≤ list.placedIndex yFlipped deferred ∧
        list.addressed yFlipped deferred + 1 = list.itemCount := by
  unfold placedIndex addressed
  cases yFlipped with
  | true =>
    -- the slots of a flipped list end at the first one
    simp only [if_true]
    omega
  | false =>
    simp only [Bool.false_eq_true, if_false]
    omega

/-- The item has a positive height, and there is room for it in the shrunk viewport. -/
structure HasRoom (deferred : DeferredScrollToItem) : Prop where
  height : 0 < list.itemHeight
  fits : list.itemHeight ≤ list.paddedHeight - list.itemHeight * deferred.offset

variable {list} {deferred} [IsStrictOrderedRing X]

theorem HasRoom.seen (hroom : list.HasRoom deferred) (hcount : 0 < list.itemCount) (yFlipped : Bool)
    {scrollTop : X} (hnonneg : 0 ≤ scrollTop) (hle : scrollTop ≤ list.maxScroll) :
    Seen (list.placement yFlipped deferred)
      (list.itemHeight * (list.placedIndex yFlipped deferred : Nat)) list.contentHeight
      list.maxScroll scrollTop where
  height := hroom.height
  offset := mul_nonneg hroom.height.le (Nat.cast_nonneg _)
  fits := by
    have hfits := hroom.fits
    show list.itemHeight + list.itemHeight * deferred.offset ≤ list.paddedHeight
    linarith
  top := mul_nonneg hroom.height.le (Nat.cast_nonneg _)
  max := by
    rcases le_total list.contentHeight list.paddedHeight with hsmall | hlarge
    · exact Or.inl ⟨hsmall, max_eq_right (by linarith)⟩
    · exact Or.inr ⟨hlarge, max_eq_left (by linarith)⟩
  item := by
    have hslot : ∀ ix : Nat, list.itemHeight * ix + list.itemHeight =
        list.itemHeight * ((ix + 1 : Nat) : X) := by
      intro ix
      push_cast
      ring
    show _ = list.itemHeight * _ ∧ list.itemHeight * _ + list.itemHeight ≤ _ ∨
      _ ≤ _ ∧ list.itemHeight * _ + list.itemHeight = _
    rw [hslot]
    rcases list.placedIndex_cases yFlipped deferred hcount with ⟨hsame, hlt⟩ | ⟨hbehind, hlast⟩
    · left
      rw [hsame]
      exact ⟨rfl, mul_le_mul_of_nonneg_left (Nat.cast_le.mpr hlt) hroom.height.le⟩
    · right
      rw [hlast]
      exact ⟨mul_le_mul_of_nonneg_left (Nat.cast_le.mpr hbehind) hroom.height.le, rfl⟩
  nonneg := hnonneg
  le := hle

end List

/-! ### Section 6: The result -/

variable {E : Type} [IsStrictOrderedRing X] [FloorRing X]

/-- A frame is prepainted, and its scroll position is as documented. -/
def AsDocumented (list : UniformList X) (renderItems : Nat → Nat → List E) (yFlipped : Bool)
    (deferred : DeferredScrollToItem) (scrollTop : X) : Prop :=
  ∃ out, list.prepaint renderItems yFlipped (some deferred) (-scrollTop) = .ok out ∧
    0 ≤ -out.scrollOffset ∧ -out.scrollOffset ≤ list.maxScroll ∧
    (0 < list.itemCount →
      Follows (list.placement yFlipped deferred) deferred.strategy deferred.scrollStrict
        list.maxScroll scrollTop (-out.scrollOffset))

/-- The scrolls that the code gets right. -/
structure Serves (list : UniformList X) (yFlipped : Bool) (deferred : DeferredScrollToItem)
    (scrollTop : X) : Prop where
  /-- The index of a flipped list is not the largest one. -/
  index : yFlipped = true → deferred.itemIndex + 1 < 2 ^ 64
  /-- At the bottom there is no offset, or it makes no difference. -/
  bottom : deferred.strategy = .bottom → 0 < deferred.offset →
    BottomFits (list.placement yFlipped deferred) deferred.scrollStrict list.maxScroll scrollTop

/-- With an item, `prepaint` scrolls to the next position. -/
theorem prepaint_scrolls {list : UniformList X} (renderItems : Nat → Nat → List E)
    (hcount : 0 < list.itemCount) (yFlipped : Bool) (deferred : DeferredScrollToItem)
    {scrollTop : X} (hnonneg : 0 ≤ scrollTop) (hle : scrollTop ≤ list.maxScroll) (next : X) :
    (∃ out, list.prepaint renderItems yFlipped (some deferred) (-scrollTop) = .ok out ∧
      -out.scrollOffset = next) ↔
    list.scrollToItem yFlipped deferred (-scrollTop) = .ok (-next) := by
  have hclamp : list.clampScroll (-scrollTop) = -scrollTop := by
    apply clampScroll_eq
    · unfold maxScroll at hle
      rw [min_le_iff]
      rcases le_max_iff.mp hle with hle | hle
      · left
        linarith
      · right
        linarith
    · linarith
  unfold prepaint updateScroll
  rw [if_pos hcount]
  dsimp only
  rw [hclamp]
  constructor
  · intro ⟨out, hout, hnext⟩
    obtain ⟨scrollOffset, hscroll, hout⟩ := Exec.bind_eq_ok.mp hout
    cases hout
    rw [hscroll, ← hnext, neg_neg]
  · intro hscroll
    rw [hscroll]
    exact ⟨_, rfl, neg_neg next⟩

/-- **A deferred scroll is as documented** iff no index overflows and, at the bottom, the
    offset makes no difference. -/
theorem scroll_asDocumented_iff (list : UniformList X) (renderItems : Nat → Nat → List E)
    (yFlipped : Bool) (deferred : DeferredScrollToItem) (hroom : list.HasRoom deferred)
    (scrollTop : X) (hnonneg : 0 ≤ scrollTop) (hle : scrollTop ≤ list.maxScroll) :
    list.AsDocumented renderItems yFlipped deferred scrollTop ↔
      (0 < list.itemCount → list.Serves yFlipped deferred scrollTop) := by
  by_cases hcount : 0 < list.itemCount
  · have hseen := hroom.seen hcount yFlipped hnonneg hle
    have hscroll := list.scrollToItem_eq yFlipped deferred scrollTop
    have hprepaint : ∀ next, _ := fun next =>
      prepaint_scrolls renderItems hcount yFlipped deferred hnonneg hle next
    constructor
    · intro ⟨out, hout, _, _, hfollows⟩ _
      have hfollows := hfollows hcount
      rw [(hprepaint _).mp ⟨out, hout, rfl⟩] at hscroll
      split at hscroll
      · cases hscroll
      · next hindex =>
        refine ⟨?_, ?_⟩
        · intro hflipped
          exact not_le.mp (fun hover => hindex ⟨hflipped, hover⟩)
        · intro hbottom hoffset
          rw [neg_inj.mp (Except.ok.inj hscroll), hbottom] at hfollows
          exact hseen.fits_of_bottom (mul_pos hroom.height (Nat.cast_pos.mpr hoffset)) hfollows
    · intro hserves
      have hserves := hserves hcount
      rw [if_neg (fun hover => absurd (hserves.index hover.1) (not_lt.mpr hover.2))] at hscroll
      obtain ⟨out, hout, hnext⟩ := (hprepaint _).mpr hscroll
      have hfollows : Follows (list.placement yFlipped deferred) deferred.strategy
          deferred.scrollStrict list.maxScroll scrollTop (-out.scrollOffset) := by
        rw [hnext]
        by_cases hbottom : deferred.strategy = .bottom
        · rcases Nat.eq_zero_or_pos deferred.offset with hzero | hoffset
          · rw [hbottom]
            apply hseen.bottom_of_zero
            show list.itemHeight * deferred.offset = 0
            rw [hzero, Nat.cast_zero, mul_zero]
          · have hfits := hserves.bottom hbottom hoffset
            rw [hbottom]
            exact hseen.bottom_of_fits hfits
        · exact hseen.follows_top hbottom
      exact ⟨out, hout, hfollows.nonneg, hfollows.le, fun _ => hfollows⟩
  · -- without items nothing scrolls
    constructor
    · intro _ hpos
      exact absurd hpos hcount
    · intro _
      refine ⟨⟨-scrollTop, 0, 0, []⟩, if_neg hcount, ?_, ?_, fun hpos => absurd hpos hcount⟩
      · show 0 ≤ - -scrollTop
        rwa [neg_neg]
      · show - -scrollTop ≤ list.maxScroll
        rwa [neg_neg]

/-- Five items of which three fit, and the fourth at the bottom. -/
theorem scroll_asDocumented_iff_bottom :
    (⟨5, 10, 0, 30, 0, 0, 0, 0⟩ : UniformList ℚ).AsDocumented
        (fun first last => List.range' first (last - first)) false ⟨3, .bottom, 0, true⟩ 5 ↔
      (0 < 5 → (⟨5, 10, 0, 30, 0, 0, 0, 0⟩ : UniformList ℚ).Serves false
        ⟨3, .bottom, 0, true⟩ 5) :=
  scroll_asDocumented_iff ⟨5, 10, 0, 30, 0, 0, 0, 0⟩ _ false ⟨3, .bottom, 0, true⟩
    ⟨by decide +kernel, by decide +kernel⟩ 5 (by decide +kernel) (by decide +kernel)

/-- A flipped list cannot scroll to its bottom: the index overflows. -/
theorem flipped_bottom_overflows :
    ¬ ∀ (list : UniformList ℚ) (yFlipped : Bool) (deferred : DeferredScrollToItem)
      (scrollTop : ℚ), list.HasRoom deferred → 0 ≤ scrollTop → scrollTop ≤ list.maxScroll →
      list.AsDocumented (fun first last => List.range' first (last - first)) yFlipped deferred
        scrollTop := by
  intro h
  obtain ⟨out, hout, _⟩ := h ⟨5, 10, 0, 30, 0, 0, 0, 0⟩ true ⟨2 ^ 64 - 1, .bottom, 0, false⟩ 0
    ⟨by decide +kernel, by decide +kernel⟩ (by decide +kernel) (by decide +kernel)
  cases hout

end UniformList

end Gpui
