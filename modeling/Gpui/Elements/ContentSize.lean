import Gpui.Elements.DivScroll

/-! # The content size of a div

    An element should scroll in the same way wherever it is, since its children move with it.
    The content size is measured with the origin of the window as one of the corners, so that
    it is that of the children only if they reach the origin.

    * **`scrollsAnywhere_iff`**: the content is as large as the children, and the element scrolls
      alike when it is moved, iff in both places some child ends at or after the left edge of
      the window, and some child at or after the top edge. -/

namespace Gpui

namespace Div

variable {X : Type} [Field X] [LinearOrder X]

/-! ### Section 1: What scrolling should be -/

/-- The element and its children at another place. -/
def Frame.moved (v : Point X) (frame : Frame X) : Frame X :=
  { frame with
    bounds := frame.bounds.moved v
    children := frame.children.map (Bounds.moved v) }

section Range

variable [FloorRing X]

/-- The content is as large as the children, here and there, and an element that is moved
    scrolls as it did. -/
structure ScrollsAnywhere (pixelsMax : X) (frame : Frame X) (v : Point X) : Prop where
  here      : frame.contentSize pixelsMax = (Bounds.unionAll frame.children).size
  there     : (frame.moved v).contentSize pixelsMax =
    (Bounds.unionAll (frame.moved v).children).size
  maxOffset : ∀ s : ScrollState X,
    (s.clampScrollPosition (frame.moved v) pixelsMax).maxOffset =
      (s.clampScrollPosition frame pixelsMax).maxOffset
  offset    : ∀ s : ScrollState X,
    (s.clampScrollPosition (frame.moved v) pixelsMax).scrollOffset =
      (s.clampScrollPosition frame pixelsMax).scrollOffset

end Range

/-- The children reach the origin of the window, and the values that there are. -/
structure Frame.ReachesOrigin (frame : Frame X) (pixelsMax : X) : Prop where
  right  : ∃ child ∈ frame.children, 0 ≤ child.bottomRight.x
  bottom : ∃ child ∈ frame.children, 0 ≤ child.bottomRight.y
  -- no pixels are more than these
  left   : ∃ child ∈ frame.children, child.origin.x ≤ pixelsMax
  top    : ∃ child ∈ frame.children, child.origin.y ≤ pixelsMax

/-! ### Section 2: The union of the children -/

theorem union_bottomRight (a b : Bounds X) :
    (a.union b).bottomRight = a.bottomRight.max b.bottomRight := by
  rw [Bounds.union, Bounds.bottomRight_fromCorners]

/-- Two children are measured as their union. -/
theorem measure_union (childMin childMax : Point X) (a b : Bounds X) (rest : List (Bounds X)) :
    measure childMin childMax (a :: b :: rest) =
      measure childMin childMax (a.union b :: rest) := by
  have horigin : (a.union b).origin = a.origin.min b.origin := rfl
  simp only [measure, horigin, union_bottomRight, Point.min_eq, Point.max_eq]
  simp only [inf_assoc, sup_assoc]

/-- The accumulators are corners of what is measured. -/
theorem measure_eq (childMin childMax : Point X) (first : Bounds X) (rest : List (Bounds X)) :
    measure childMin childMax (first :: rest) =
      measure childMin childMax [rest.foldl Bounds.union first] := by
  -- induction on the other children, with what was united so far
  induction rest generalizing first with
  | nil => rfl
  | cons second rest ih => rw [measure_union, List.foldl_cons, ih]

theorem contentSize_eq {frame : Frame X} (h : frame.children ≠ []) (pixelsMax : X) :
    frame.contentSize pixelsMax =
      measure ⟨pixelsMax, pixelsMax⟩ ⟨0, 0⟩ [Bounds.unionAll frame.children] := by
  unfold Frame.contentSize
  cases hchildren : frame.children with
  | nil => exact absurd hchildren h
  | cons first rest => exact measure_eq _ _ first rest

/-- What a union has if and only if one of both has it, the union of the children has if and
    only if one of them has it. -/
theorem unionAll_iff {P : Bounds X → Prop} (hunion : ∀ a b, P (a.union b) ↔ P a ∨ P b)
    {children : List (Bounds X)} (h : children ≠ []) :
    P (Bounds.unionAll children) ↔ ∃ child ∈ children, P child := by
  cases children with
  | nil => exact absurd rfl h
  | cons first rest =>
    show P (rest.foldl Bounds.union first) ↔ _
    clear h
    induction rest generalizing first with
    | nil => simp
    | cons second rest ih =>
      rw [List.foldl_cons, ih]
      simp [hunion, or_assoc]

/-- The corners of the union. -/
theorem reachesOrigin_iff {frame : Frame X} (h : frame.children ≠ []) (pixelsMax : X) :
    frame.ReachesOrigin pixelsMax ↔
      (0 ≤ (Bounds.unionAll frame.children).bottomRight.x ∧
          (Bounds.unionAll frame.children).origin.x ≤ pixelsMax) ∧
        0 ≤ (Bounds.unionAll frame.children).bottomRight.y ∧
          (Bounds.unionAll frame.children).origin.y ≤ pixelsMax := by
  rw [unionAll_iff (P := fun b => 0 ≤ b.bottomRight.x) ?_ h,
    unionAll_iff (P := fun b => 0 ≤ b.bottomRight.y) ?_ h,
    unionAll_iff (P := fun b => b.origin.x ≤ pixelsMax) ?_ h,
    unionAll_iff (P := fun b => b.origin.y ≤ pixelsMax) ?_ h]
  · constructor
    · exact fun hreaches => ⟨⟨hreaches.right, hreaches.left⟩, hreaches.bottom, hreaches.top⟩
    · exact fun ⟨⟨hright, hleft⟩, hbottom, htop⟩ => ⟨hright, hbottom, hleft, htop⟩
  · simp [Bounds.union, Bounds.fromCorners, Point.min_eq]
  · simp [Bounds.union, Bounds.fromCorners, Point.min_eq]
  · simp [union_bottomRight, Point.max_eq]
  · simp [union_bottomRight, Point.max_eq]

/-! ### Section 3: When the content is as large as the children -/

section Ordered

variable [IsStrictOrderedRing X]

/-- An interval keeps its length if it is made to reach two points only if it does. -/
theorem max_sub_min_eq_iff {low high a b : X} :
    max b high - min a low = high - low ↔ b ≤ high ∧ low ≤ a := by
  constructor
  · intro h
    have hhigh : high ≤ max b high := le_max_right b high
    have hlow : min a low ≤ low := min_le_right a low
    -- both ends stay
    have hb : max b high = high := by linarith
    have ha : min a low = low := by linarith
    exact ⟨max_eq_right_iff.mp hb, min_eq_right_iff.mp ha⟩
  · intro h
    rw [max_eq_right h.1, min_eq_right h.2]

theorem contentSize_eq_iff {frame : Frame X} (h : frame.children ≠ []) (pixelsMax : X) :
    frame.contentSize pixelsMax = (Bounds.unionAll frame.children).size ↔
      frame.ReachesOrigin pixelsMax := by
  have hsize : ∀ b : Bounds X, b.size =
      ⟨b.bottomRight.x - b.origin.x, b.bottomRight.y - b.origin.y⟩ := by
    intro b
    simp [Bounds.bottomRight]
  rw [contentSize_eq h, reachesOrigin_iff h, hsize (Bounds.unionAll frame.children)]
  simp only [measure, Point.min_eq, Point.max_eq, Size.mk.injEq]
  rw [max_sub_min_eq_iff, max_sub_min_eq_iff]

/-! ### Section 4: Moving an element -/

theorem union_moved (v : Point X) (a b : Bounds X) :
    (a.moved v).union (b.moved v) = (a.union b).moved v := by
  have hcorner : ∀ c : Bounds X, (c.moved v).bottomRight =
      ⟨c.bottomRight.x + v.x, c.bottomRight.y + v.y⟩ := by
    intro c
    simp only [Bounds.moved, Bounds.bottomRight, Point.mk.injEq]
    constructor <;> ring
  simp only [Bounds.union, Bounds.fromCorners, hcorner, Point.min_eq, Point.max_eq]
  simp only [Bounds.moved, min_add_add_right, max_add_add_right, add_sub_add_right_eq_sub]

theorem unionAll_moved (v : Point X) {children : List (Bounds X)} (h : children ≠ []) :
    Bounds.unionAll (children.map (Bounds.moved v)) = (Bounds.unionAll children).moved v := by
  cases children with
  | nil => exact absurd rfl h
  | cons first rest =>
    show (rest.map (Bounds.moved v)).foldl Bounds.union (first.moved v) =
      (rest.foldl Bounds.union first).moved v
    clear h
    induction rest generalizing first with
    | nil => rfl
    | cons second rest ih => rw [List.map_cons, List.foldl_cons, union_moved, ih, List.foldl_cons]

section Range

variable [FloorRing X] {frame : Frame X} {pixelsMax : X} {v : Point X}

section

omit [IsStrictOrderedRing X]

/-- The range depends on the content size, and on nothing that moves. -/
theorem scrollMax_moved
    (h : (frame.moved v).contentSize pixelsMax = frame.contentSize pixelsMax) :
    (frame.moved v).scrollMax pixelsMax = frame.scrollMax pixelsMax := by
  have hpadding : (frame.moved v).paddingSize = frame.paddingSize := rfl
  unfold Frame.scrollMax
  rw [h, hpadding]
  rfl

theorem clampOffset_moved
    (h : (frame.moved v).contentSize pixelsMax = frame.contentSize pixelsMax)
    (scrollToBottom : Bool) (scrollOffset : Point X) :
    (frame.moved v).clampOffset pixelsMax scrollToBottom scrollOffset =
      frame.clampOffset pixelsMax scrollToBottom scrollOffset := by
  unfold Frame.clampOffset
  rw [scrollMax_moved h]

end

/-! ### Section 5: The result -/

/-- **An element scrolls alike in two places** iff its children reach the origin of the window
    in both. -/
theorem scrollsAnywhere_iff (pixelsMax : X) (frame : Frame X) (v : Point X)
    (hchildren : frame.children ≠ []) :
    ScrollsAnywhere pixelsMax frame v ↔
      frame.ReachesOrigin pixelsMax ∧ (frame.moved v).ReachesOrigin pixelsMax := by
  have hmoved : (frame.moved v).children ≠ [] := by
    simpa [Frame.moved] using hchildren
  constructor
  · intro h
    exact ⟨(contentSize_eq_iff hchildren pixelsMax).mp h.here,
      (contentSize_eq_iff hmoved pixelsMax).mp h.there⟩
  · intro h
    have hhere := (contentSize_eq_iff hchildren pixelsMax).mpr h.1
    have hthere := (contentSize_eq_iff hmoved pixelsMax).mpr h.2
    -- the union only moves
    have hunion : Bounds.unionAll (frame.moved v).children =
        (Bounds.unionAll frame.children).moved v := unionAll_moved v hchildren
    have hsame : (frame.moved v).contentSize pixelsMax = frame.contentSize pixelsMax := by
      rw [hthere, hhere, hunion]
      rfl
    constructor
    · exact hhere
    · exact hthere
    · intro s
      cases s with
      | unscrolled => rfl
      | element scrollOffset => rfl
      | tracked scrollHandle => exact congrArg some (scrollMax_moved hsame)
    · intro s
      cases s with
      | unscrolled => rfl
      | element scrollOffset => exact clampOffset_moved hsame _ _
      | tracked scrollHandle => exact clampOffset_moved hsame _ _

end Range

end Ordered

/-- An element with one child of its size. -/
def filled : Frame ℚ where
  style := ⟨⟨.visible, .scroll⟩, ⟨.fraction 0, .fraction 0, .fraction 0, .fraction 0⟩⟩
  bounds := ⟨⟨0, 0⟩, ⟨10, 10⟩⟩
  children := [⟨⟨0, 0⟩, ⟨10, 10⟩⟩]
  remSize := 16
  scaleFactor := 1

/-- An element with two children, of which the second one lies partly below it. -/
def overfilled : Frame ℚ where
  style := ⟨⟨.visible, .scroll⟩, ⟨.fraction 0, .fraction 0, .fraction 0, .fraction 0⟩⟩
  bounds := ⟨⟨20, 20⟩, ⟨10, 10⟩⟩
  children := [⟨⟨20, 20⟩, ⟨10, 6⟩⟩, ⟨⟨22, 26⟩, ⟨6, 30⟩⟩]
  remSize := 16
  scaleFactor := 1

/-- It scrolls by what lies below, also where most of it is above the window. -/
theorem overfilled_scrollsAnywhere : ScrollsAnywhere 1000 overfilled ⟨5, -50⟩ ∧
    (overfilled.moved ⟨5, -50⟩).scrollMax 1000 = ⟨0, 26⟩ := by
  have hne : overfilled.children ≠ [] := by simp [overfilled]
  have hhere : overfilled.ReachesOrigin 1000 :=
    (reachesOrigin_iff hne 1000).mpr (by decide +kernel)
  have hthere : (overfilled.moved ⟨5, -50⟩).ReachesOrigin 1000 :=
    (reachesOrigin_iff (by simp [Frame.moved, overfilled]) 1000).mpr (by decide +kernel)
  refine ⟨?_, by decide +kernel⟩
  exact (scrollsAnywhere_iff 1000 overfilled ⟨5, -50⟩ hne).mpr ⟨hhere, hthere⟩

/-- Above the window the same element scrolls by as much as it is away from the window. -/
theorem filled_scrolls_above : ¬ ScrollsAnywhere 1000 filled ⟨0, -100⟩ := by
  intro h
  exact absurd h.there (by decide +kernel)

end Div

end Gpui
