import Gpui.Elements.Anchored

/-! # Anchored elements fit the window

    The children of an anchored element should be in the window and not in its margins, where
    they were asked to be if possible, and else on the other side of the anchor point.  The
    code looks for overflows of the window and not of the margins, and switches the anchor
    about a point that is not the anchor point if there is an offset, or if the position is
    relative to the parent.

    Both axes are treated alike, except that the vertical one is looked at after the anchor
    was switched on the other.

    * **`placed_iff`**: the children are where they should be iff on each axis the rectangle,
      before it is snapped to the window, does not reach into a margin without leaving the
      window, and is on the other side of the anchor point if it should be. -/

namespace Gpui

/-! ### Section 1: Axes -/

namespace Axis

def other : Axis → Axis
  | .vertical   => .horizontal
  | .horizontal => .vertical

end Axis

def Point.along {X : Type} (self : Point X) : Axis → X
  | .vertical   => self.y
  | .horizontal => self.x

def Size.along {X : Type} (self : Size X) : Axis → X
  | .vertical   => self.height
  | .horizontal => self.width

namespace AnchoredElement

variable {X : Type} [Field X] [LinearOrder X]

/-- One axis of a window with margins, and the length of the children. -/
structure Room (X : Type) where
  limit : X
  low : X
  high : X
  length : X

namespace Room

/-- Children that start here leave the window. -/
def Overflows (r : Room X) (start : X) : Prop :=
  start < 0 ∨ r.limit < start + r.length

/-- They are between the margins. -/
def Inside (r : Room X) (start : X) : Prop :=
  r.low ≤ start ∧ start + r.length ≤ r.limit - r.high

def snap (r : Room X) (start : X) : X :=
  AnchoredElement.snap r.limit r.low r.high r.length start

/-- They fit. -/
structure Wide (r : Room X) : Prop where
  low  : 0 ≤ r.low
  high : 0 ≤ r.high
  fits : r.low + r.length + r.high ≤ r.limit

variable [IsStrictOrderedRing X] {r : Room X} {start target : X}

theorem Inside.not_overflows (h : r.Inside start) (hwide : r.Wide) : ¬ r.Overflows start := by
  intro hover
  obtain hlow | hhigh := hover
  · linarith [h.1, hwide.low]
  · linarith [h.2, hwide.high]

/-- What snapping does. -/
theorem snap_cases (hwide : r.Wide) (start : X) :
    (r.limit < start + r.length ∧ r.snap start = r.limit - r.high - r.length) ∨
      (start < 0 ∧ r.snap start = r.low) ∨
        ¬ r.Overflows start ∧ r.snap start = start := by
  unfold snap AnchoredElement.snap
  by_cases hhigh : r.limit < start + r.length
  · refine Or.inl ⟨hhigh, ?_⟩
    rw [if_pos hhigh, if_neg]
    · ring
    · linarith [hwide.low, hwide.fits]
  · rw [if_neg hhigh]
    by_cases hlow : start < 0
    · refine Or.inr (Or.inl ⟨hlow, ?_⟩)
      rw [if_pos hlow, zero_add]
    · refine Or.inr (Or.inr ⟨?_, if_neg hlow⟩)
      intro hover
      exact hover.elim hlow hhigh

/-- Snapping brings in what leaves the window, and nothing else. -/
theorem inside_snap_iff (hwide : r.Wide) (start : X) :
    r.Inside (r.snap start) ↔ r.Overflows start ∨ r.Inside start := by
  obtain ⟨hhigh, hsnap⟩ | ⟨hlow, hsnap⟩ | ⟨hnot, hsnap⟩ := snap_cases hwide start
  · rw [hsnap]
    refine ⟨fun _ => Or.inl (Or.inr hhigh), fun _ => ⟨?_, ?_⟩⟩ <;> linarith [hwide.fits]
  · rw [hsnap]
    refine ⟨fun _ => Or.inl (Or.inl hlow), fun _ => ⟨le_refl _, ?_⟩⟩
    linarith [hwide.fits]
  · rw [hsnap]
    exact ⟨Or.inr, fun h => h.resolve_left hnot⟩

theorem snap_of_inside (hwide : r.Wide) (h : r.Inside start) : r.snap start = start := by
  have hnot := h.not_overflows hwide
  obtain ⟨hhigh, _⟩ | ⟨hlow, _⟩ | ⟨_, hsnap⟩ := snap_cases hwide start
  · exact absurd (Or.inr hhigh) hnot
  · exact absurd (Or.inl hlow) hnot
  · exact hsnap

/-- A start is a place, or is snapped to it. -/
def Lands (r : Room X) (start target : X) : Prop :=
  start = target ∨ (r.limit < start + r.length ∧ target + r.length = r.limit - r.high) ∨
    (start < 0 ∧ target = r.low)

theorem snap_eq_iff (hwide : r.Wide) (htarget : r.Inside target) (start : X) :
    r.snap start = target ↔ r.Lands start target := by
  constructor
  · intro h
    obtain ⟨hhigh, hsnap⟩ | ⟨hlow, hsnap⟩ | ⟨_, hsnap⟩ := snap_cases hwide start
    · refine Or.inr (Or.inl ⟨hhigh, ?_⟩)
      rw [← h, hsnap]
      ring
    · exact Or.inr (Or.inr ⟨hlow, h.symm.trans hsnap⟩)
    · exact Or.inl (hsnap.symm.trans h)
  · intro h
    obtain rfl | ⟨hhigh, htarget'⟩ | ⟨hlow, htarget'⟩ := h
    · exact snap_of_inside hwide htarget
    · obtain ⟨_, hsnap⟩ | ⟨hlow, _⟩ | ⟨hnot, _⟩ := snap_cases hwide start
      · rw [hsnap]
        linarith
      · linarith [hwide.low, hwide.high, hwide.fits]
      · exact absurd (Or.inr hhigh) hnot
    · obtain ⟨hhigh, _⟩ | ⟨_, hsnap⟩ | ⟨hnot, _⟩ := snap_cases hwide start
      · linarith [hwide.low, hwide.high, hwide.fits]
      · exact hsnap.trans htarget'.symm
      · exact absurd (Or.inl hlow) hnot

end Room

/-! ### Section 2: Where the children should be -/

namespace Anchored

variable (element : Anchored X) (window : Window X) (bounds : Bounds X) (size : Size X)

def room : Axis → Room X
  | .vertical =>
      ⟨window.viewportSize.height, (element.edges window).top, (element.edges window).bottom,
        size.height⟩
  | .horizontal =>
      ⟨window.viewportSize.width, (element.edges window).left, (element.edges window).right,
        size.width⟩

/-- The rectangle on the other side of the anchor point. -/
def mirrored (axis : Axis) : Bounds X :=
  fromAnchorAndSize (element.anchor.otherSideAlong axis) (element.anchorPoint bounds) size

/-- The children are between the margins, as requested or on the other side. -/
structure Placed (rect : Bounds X) : Prop where
  inside   : ∀ axis, (element.room window size axis).Inside (rect.origin.along axis)
  kept     : (∀ axis, (element.room window size axis).Inside
      ((element.requested bounds size).origin.along axis)) →
    rect = element.requested bounds size
  switched : element.fitMode = .switchAnchor → ∀ axis,
    ¬ (element.room window size axis).Inside ((element.requested bounds size).origin.along axis) →
      (element.room window size axis).Inside
          ((element.mirrored bounds size axis).origin.along axis) →
        rect.origin.along axis = (element.mirrored bounds size axis).origin.along axis

/-- The rectangle that children are moved to. -/
def place (children : List (Bounds X)) : Bounds X :=
  match element.prepaint window bounds children with
  | some offset => (Bounds.unionAll children).moved offset
  | none        => Bounds.unionAll children

/-! ### Section 3: When they are there -/

/-- The requested rectangle, about the point that the code switches the anchor at. -/
def shifted : Bounds X :=
  fromAnchorAndSize element.anchor (element.position bounds) size

/-- The rectangle on the other side of this point. -/
def turned (axis : Axis) : Bounds X :=
  fromAnchorAndSize (element.anchor.otherSideAlong axis) (element.position bounds) size

/-- The anchor is switched if the children start here, which leaves the window. -/
def Turns (axis : Axis) (start : X) : Prop :=
  element.fitMode = .switchAnchor ∧
    (element.room window size axis).Overflows start ∧
      ¬ (element.room window size axis).Overflows
        ((element.turned bounds size axis).origin.along axis)

/-- The anchor is switched on an axis.  A switch on the horizontal one has moved the rectangle on
    the other. -/
def Switches : Axis → Prop
  | .horizontal =>
      element.Turns window bounds size .horizontal (element.requested bounds size).origin.x
  | .vertical =>
      (element.Turns window bounds size .horizontal (element.requested bounds size).origin.x →
          element.Turns window bounds size .vertical (element.shifted bounds size).origin.y) ∧
        (¬ element.Turns window bounds size .horizontal (element.requested bounds size).origin.x →
          element.Turns window bounds size .vertical (element.requested bounds size).origin.y)

/-- Children that start here end where they should when they are snapped to the window. -/
structure Snaps (axis : Axis) (start : X) : Prop where
  noMargin : (element.room window size axis).Overflows start ∨
    (element.room window size axis).Inside start
  lands    : element.fitMode = .switchAnchor →
    ¬ (element.room window size axis).Inside ((element.requested bounds size).origin.along axis) →
      (element.room window size axis).Inside
          ((element.mirrored bounds size axis).origin.along axis) →
        (element.room window size axis).Lands start
          ((element.mirrored bounds size axis).origin.along axis)

/-- The condition, for what happens on the axis and on the other one. -/
structure Sound : Prop where
  kept     : ∀ axis, ¬ element.Switches window bounds size axis →
    ¬ element.Switches window bounds size axis.other →
      element.Snaps window bounds size axis ((element.requested bounds size).origin.along axis)
  shifted  : ∀ axis, ¬ element.Switches window bounds size axis →
    element.Switches window bounds size axis.other →
      element.Snaps window bounds size axis ((element.shifted bounds size).origin.along axis)
  switched : ∀ axis, element.Switches window bounds size axis →
    element.Snaps window bounds size axis ((element.turned bounds size axis).origin.along axis)

/-- The children and the margins fit into the window. -/
def Fits : Prop :=
  ∀ axis, (element.room window size axis).Wide

/-! ### Section 4: What the code does on each axis -/

variable {element window bounds size}

section

omit [LinearOrder X]

/-- The anchor on the other side along an axis is the same along the other one. -/
theorem along_otherSide (anchor : Anchor) (origin : Point X) (size : Size X) (axis : Axis) :
    (fromAnchorAndSize (anchor.otherSideAlong axis) origin size).origin.along axis.other =
      (fromAnchorAndSize anchor origin size).origin.along axis.other := by
  cases axis <;> cases anchor <;> rfl

theorem otherSideAlong_comm (anchor : Anchor) (axis : Axis) :
    (anchor.otherSideAlong axis).otherSideAlong axis.other =
      (anchor.otherSideAlong axis.other).otherSideAlong axis := by
  cases axis <;> cases anchor <;> rfl

end

theorem overflowsHorizontally_iff {rect : Bounds X} (hsize : rect.size = size) :
    overflowsHorizontally window.viewportSize rect = true ↔
      (element.room window size .horizontal).Overflows rect.origin.x := by
  simp [overflowsHorizontally, Room.Overflows, room, Bounds.bottomRight, hsize]

theorem overflowsVertically_iff {rect : Bounds X} (hsize : rect.size = size) :
    overflowsVertically window.viewportSize rect = true ↔
      (element.room window size .vertical).Overflows rect.origin.y := by
  simp [overflowsVertically, Room.Overflows, room, Bounds.bottomRight, hsize]

/-- The first switch. -/
theorem switchHorizontally_eq (hmode : element.fitMode = .switchAnchor) :
    (element.Turns window bounds size .horizontal (element.requested bounds size).origin.x →
        switchHorizontally window.viewportSize (element.position bounds) size
            ⟨element.anchor, element.requested bounds size⟩ =
          ⟨element.anchor.otherSideAlong .horizontal, element.turned bounds size .horizontal⟩) ∧
      (¬ element.Turns window bounds size .horizontal (element.requested bounds size).origin.x →
        switchHorizontally window.viewportSize (element.position bounds) size
            ⟨element.anchor, element.requested bounds size⟩ =
          ⟨element.anchor, element.requested bounds size⟩) := by
  have hrequested :
      overflowsHorizontally window.viewportSize (element.requested bounds size) = true ↔
        (element.room window size .horizontal).Overflows (element.requested bounds size).origin.x :=
    overflowsHorizontally_iff rfl
  have hturned :
      overflowsHorizontally window.viewportSize (element.turned bounds size .horizontal) = true ↔
        (element.room window size .horizontal).Overflows
          (element.turned bounds size .horizontal).origin.x :=
    overflowsHorizontally_iff rfl
  constructor
  · intro hturns
    unfold switchHorizontally
    rw [if_pos (hrequested.mpr hturns.2.1)]
    exact if_neg (fun h => hturns.2.2 (hturned.mp h))
  · intro hnot
    unfold switchHorizontally
    by_cases hover :
        overflowsHorizontally window.viewportSize (element.requested bounds size) = true
    · rw [if_pos hover]
      apply if_pos
      by_contra hfits
      exact hnot ⟨hmode, hrequested.mp hover, fun h => hfits (hturned.mpr h)⟩
    · exact if_neg hover

/-- The second switch, for a rectangle at either side of the point. -/
theorem switchVertically_eq (window : Window X) (hmode : element.fitMode = .switchAnchor)
    {s : Switch X} (hsize : s.desired.size = size)
    (hanchor : (fromAnchorAndSize (s.anchor.otherSideAlong .vertical) (element.position bounds)
      size).origin.y = (element.turned bounds size .vertical).origin.y) :
    (element.Turns window bounds size .vertical s.desired.origin.y →
        switchVertically window.viewportSize (element.position bounds) size s =
          fromAnchorAndSize (s.anchor.otherSideAlong .vertical) (element.position bounds) size) ∧
      (¬ element.Turns window bounds size .vertical s.desired.origin.y →
        switchVertically window.viewportSize (element.position bounds) size s = s.desired) := by
  have hdesired : overflowsVertically window.viewportSize s.desired = true ↔
      (element.room window size .vertical).Overflows s.desired.origin.y :=
    overflowsVertically_iff hsize
  have hswitched : overflowsVertically window.viewportSize
        (fromAnchorAndSize (s.anchor.otherSideAlong .vertical) (element.position bounds) size) =
          true ↔
      (element.room window size .vertical).Overflows
        (fromAnchorAndSize (s.anchor.otherSideAlong .vertical) (element.position bounds)
          size).origin.y :=
    overflowsVertically_iff rfl
  rw [hanchor] at hswitched
  constructor
  · intro hturns
    unfold switchVertically
    rw [if_pos (hdesired.mpr hturns.2.1)]
    exact if_neg (fun h => hturns.2.2 (hswitched.mp h))
  · intro hnot
    unfold switchVertically
    by_cases hover : overflowsVertically window.viewportSize s.desired = true
    · rw [if_pos hover]
      apply if_pos
      by_contra hfits
      exact hnot ⟨hmode, hdesired.mp hover, fun h => hfits (hswitched.mpr h)⟩
    · exact if_neg hover

/-- Where the switched rectangle is on an axis. -/
structure Along (element : Anchored X) (window : Window X) (bounds : Bounds X) (size : Size X)
    (axis : Axis) (start : X) : Prop where
  kept     : ¬ element.Switches window bounds size axis →
    ¬ element.Switches window bounds size axis.other →
      start = (element.requested bounds size).origin.along axis
  shifted  : ¬ element.Switches window bounds size axis →
    element.Switches window bounds size axis.other →
      start = (element.shifted bounds size).origin.along axis
  switched : element.Switches window bounds size axis →
    start = (element.turned bounds size axis).origin.along axis

theorem switches_vertical_iff {start : X}
    (h : element.Turns window bounds size .horizontal (element.requested bounds size).origin.x ∧
          start = (element.shifted bounds size).origin.y ∨
        ¬ element.Turns window bounds size .horizontal (element.requested bounds size).origin.x ∧
          start = (element.requested bounds size).origin.y) :
    element.Switches window bounds size .vertical ↔
      element.Turns window bounds size .vertical start := by
  obtain ⟨hturns, rfl⟩ | ⟨hturns, rfl⟩ := h
  · exact ⟨fun h => h.1 hturns, fun h => ⟨fun _ => h, fun hnot => absurd hturns hnot⟩⟩
  · exact ⟨fun h => h.2 hturns, fun h => ⟨fun hyes => absurd hyes hturns, fun _ => h⟩⟩

theorem not_switches (hmode : element.fitMode ≠ .switchAnchor) (axis : Axis) :
    ¬ element.Switches window bounds size axis := by
  cases axis with
  | horizontal => exact fun h => hmode h.1
  | vertical =>
    intro h
    by_cases hturns : element.Turns window bounds size .horizontal
        (element.requested bounds size).origin.x
    · exact hmode hturns.1
    · exact hmode (h.2 hturns).1

/-- The anchor was switched on the horizontal axis. -/
theorem along_of_turns (hmode : element.fitMode = .switchAnchor)
    (hhorizontal : element.Turns window bounds size .horizontal
      (element.requested bounds size).origin.x)
    (axis : Axis) :
    element.Along window bounds size axis
      ((switchVertically window.viewportSize (element.position bounds) size
        ⟨element.anchor.otherSideAlong .horizontal,
          element.turned bounds size .horizontal⟩).origin.along axis) := by
  have hanchor : (fromAnchorAndSize ((element.anchor.otherSideAlong .horizontal).otherSideAlong
      .vertical) (element.position bounds) size).origin.y =
        (element.turned bounds size .vertical).origin.y := by
    rw [show (element.anchor.otherSideAlong .horizontal).otherSideAlong .vertical =
      (element.anchor.otherSideAlong .vertical).otherSideAlong .horizontal from
        otherSideAlong_comm element.anchor .horizontal]
    exact along_otherSide (element.anchor.otherSideAlong .vertical) _ _ .horizontal
  have hx := along_otherSide (element.anchor.otherSideAlong .horizontal)
    (element.position bounds) size .vertical
  have hy : (element.turned bounds size .horizontal).origin.y =
      (element.shifted bounds size).origin.y :=
    along_otherSide element.anchor _ _ .horizontal
  have hswitches := switches_vertical_iff (Or.inl ⟨hhorizontal, hy⟩)
  have hswitch := switchVertically_eq window hmode
    (s := ⟨element.anchor.otherSideAlong .horizontal, element.turned bounds size .horizontal⟩)
    (show (element.turned bounds size .horizontal).size = size from rfl) hanchor
  by_cases hvertical : element.Turns window bounds size .vertical
      (element.turned bounds size .horizontal).origin.y
  · rw [hswitch.1 hvertical]
    cases axis with
    | horizontal =>
      exact ⟨fun h => absurd hhorizontal h, fun h => absurd hhorizontal h, fun _ => hx⟩
    | vertical =>
      exact ⟨fun h => absurd (hswitches.mpr hvertical) h,
        fun h => absurd (hswitches.mpr hvertical) h, fun _ => hanchor⟩
  · rw [hswitch.2 hvertical]
    cases axis with
    | horizontal =>
      exact ⟨fun h => absurd hhorizontal h, fun h => absurd hhorizontal h, fun _ => rfl⟩
    | vertical =>
      exact ⟨fun _ h => absurd hhorizontal h, fun _ _ => hy,
        fun h => absurd (hswitches.mp h) hvertical⟩

/-- The anchor was not switched on the horizontal axis. -/
theorem along_of_not_turns (hmode : element.fitMode = .switchAnchor)
    (hhorizontal : ¬ element.Turns window bounds size .horizontal
      (element.requested bounds size).origin.x) (axis : Axis) :
    element.Along window bounds size axis
      ((switchVertically window.viewportSize (element.position bounds) size
        ⟨element.anchor, element.requested bounds size⟩).origin.along axis) := by
  have hx := along_otherSide element.anchor (element.position bounds) size .vertical
  have hswitches := switches_vertical_iff (Or.inr ⟨hhorizontal, rfl⟩)
  have hswitch := switchVertically_eq window hmode
    (s := ⟨element.anchor, element.requested bounds size⟩)
    (show (element.requested bounds size).size = size from rfl)
    (show (element.turned bounds size .vertical).origin.y = _ from rfl)
  by_cases hvertical : element.Turns window bounds size .vertical
      (element.requested bounds size).origin.y
  · rw [hswitch.1 hvertical]
    cases axis with
    | horizontal =>
      exact ⟨fun _ h => absurd (hswitches.mpr hvertical) h, fun _ _ => hx,
        fun h => absurd h hhorizontal⟩
    | vertical =>
      exact ⟨fun h => absurd (hswitches.mpr hvertical) h,
        fun h => absurd (hswitches.mpr hvertical) h, fun _ => rfl⟩
  · rw [hswitch.2 hvertical]
    cases axis with
    | horizontal =>
      exact ⟨fun _ _ => rfl, fun _ h => absurd (hswitches.mp h) hvertical,
        fun h => absurd h hhorizontal⟩
    | vertical =>
      exact ⟨fun _ _ => rfl, fun _ h => absurd h hhorizontal,
        fun h => absurd (hswitches.mp h) hvertical⟩

theorem switched_along (axis : Axis) :
    element.Along window bounds size axis
      ((element.switched window bounds size).origin.along axis) := by
  by_cases hmode : element.fitMode = .switchAnchor
  · have hswitched : element.switched window bounds size =
        switchVertically window.viewportSize (element.position bounds) size
          (switchHorizontally window.viewportSize (element.position bounds) size
            ⟨element.anchor, element.requested bounds size⟩) := by
      unfold switched
      rw [hmode]
    rw [hswitched]
    by_cases hhorizontal : element.Turns window bounds size .horizontal
        (element.requested bounds size).origin.x
    · rw [(switchHorizontally_eq hmode).1 hhorizontal]
      exact along_of_turns hmode hhorizontal axis
    · rw [(switchHorizontally_eq hmode).2 hhorizontal]
      exact along_of_not_turns hmode hhorizontal axis
  · have hswitched : element.switched window bounds size = element.requested bounds size := by
      unfold switched
      split
      · next h => exact absurd h hmode
      · rfl
    rw [hswitched]
    exact {
      kept := fun _ _ => rfl
      shifted := fun _ h => absurd h (not_switches hmode axis.other)
      switched := fun h => absurd h (not_switches hmode axis) }

/-! ### Section 5: The result -/

section Ordered

variable [IsStrictOrderedRing X]

section

omit [IsStrictOrderedRing X]

theorem desired_along (axis : Axis) :
    (element.desired window bounds size).origin.along axis =
      (element.room window size axis).snap
        ((element.switched window bounds size).origin.along axis) := by
  cases axis <;> rfl

/-- The condition is about what is snapped. -/
theorem sound_iff :
    element.Sound window bounds size ↔ ∀ axis,
      element.Snaps window bounds size axis
        ((element.switched window bounds size).origin.along axis) := by
  constructor
  · intro h axis
    have halong : element.Along window bounds size axis
        ((element.switched window bounds size).origin.along axis) := switched_along axis
    by_cases hswitches : element.Switches window bounds size axis
    · rw [halong.switched hswitches]
      exact h.switched axis hswitches
    · by_cases hother : element.Switches window bounds size axis.other
      · rw [halong.shifted hswitches hother]
        exact h.shifted axis hswitches hother
      · rw [halong.kept hswitches hother]
        exact h.kept axis hswitches hother
  · intro h
    constructor
    · intro axis hswitches hother
      rw [← (switched_along axis).kept hswitches hother]
      exact h axis
    · intro axis hswitches hother
      rw [← (switched_along axis).shifted hswitches hother]
      exact h axis
    · intro axis hswitches
      rw [← (switched_along axis).switched hswitches]
      exact h axis

end

/-- Nothing is switched if the children are in the window as requested. -/
theorem switched_of_inside (hfits : element.Fits window size)
    (h : ∀ axis, (element.room window size axis).Inside
      ((element.requested bounds size).origin.along axis)) (axis : Axis) :
    (element.switched window bounds size).origin.along axis =
      (element.requested bounds size).origin.along axis := by
  have hnot : ∀ axis, ¬ element.Turns window bounds size axis
      ((element.requested bounds size).origin.along axis) :=
    fun axis hturns => (h axis).not_overflows (hfits axis) hturns.2.1
  have hswitches : ∀ axis, ¬ element.Switches window bounds size axis := by
    intro axis
    cases axis with
    | horizontal => exact hnot .horizontal
    | vertical => exact fun hboth => hnot .vertical (hboth.2 (hnot .horizontal))
  exact (switched_along axis).kept (hswitches axis) (hswitches axis.other)

theorem placed_desired_iff (hfits : element.Fits window size) :
    element.Placed window bounds size (element.desired window bounds size) ↔
      element.Sound window bounds size := by
  rw [sound_iff]
  constructor
  · intro h axis
    constructor
    · have hinside := h.inside axis
      rw [desired_along] at hinside
      exact (Room.inside_snap_iff (hfits axis) _).mp hinside
    · intro hmode hout hmirrored
      have hlands := h.switched hmode axis hout hmirrored
      rw [desired_along] at hlands
      exact (Room.snap_eq_iff (hfits axis) hmirrored _).mp hlands
  · intro h
    constructor
    · intro axis
      rw [desired_along]
      exact (Room.inside_snap_iff (hfits axis) _).mpr (h axis).noMargin
    · intro hinside
      have hkept : ∀ axis, (element.desired window bounds size).origin.along axis =
          (element.requested bounds size).origin.along axis := by
        intro axis
        rw [desired_along, switched_of_inside hfits hinside]
        exact Room.snap_of_inside (hfits axis) (hinside axis)
      have hx : (element.desired window bounds size).origin.x =
          (element.requested bounds size).origin.x := hkept .horizontal
      have hy : (element.desired window bounds size).origin.y =
          (element.requested bounds size).origin.y := hkept .vertical
      show Bounds.mk ⟨(element.desired window bounds size).origin.x,
        (element.desired window bounds size).origin.y⟩ size = _
      rw [hx, hy]
      rfl
    · intro hmode axis hout hmirrored
      rw [desired_along]
      exact (Room.snap_eq_iff (hfits axis) hmirrored _).mpr ((h axis).lands hmode hout hmirrored)

/-- A window without margins, and an anchor that is switched about the anchor point. -/
theorem sound_of_anchorPoint
    (hmargins : ∀ axis, (element.room window size axis).low = 0 ∧
      (element.room window size axis).high = 0)
    (hposition : element.position bounds = element.anchorPoint bounds) :
    element.Sound window bounds size := by
  have hcomplete : ∀ axis start, (element.room window size axis).Overflows start ∨
      (element.room window size axis).Inside start := by
    intro axis start
    by_cases hover : (element.room window size axis).Overflows start
    · exact Or.inl hover
    · obtain ⟨hlow, hhigh⟩ := hmargins axis
      obtain ⟨hstart, hend⟩ := not_or.mp hover
      refine Or.inr ⟨?_, ?_⟩ <;> linarith
  have hmirrored : ∀ axis, element.mirrored bounds size axis = element.turned bounds size axis := by
    intro axis
    rw [mirrored, ← hposition]
    rfl
  have hshifted : element.shifted bounds size = element.requested bounds size := by
    rw [shifted, hposition]
    rfl
  -- what should be switched is switched
  have hsnaps : ∀ axis, ¬ element.Switches window bounds size axis →
      element.Snaps window bounds size axis
        ((element.requested bounds size).origin.along axis) := by
    intro axis hnot
    refine ⟨hcomplete axis _, ?_⟩
    intro hmode hout hinside
    rw [hmirrored] at hinside
    have hturns : element.Turns window bounds size axis
        ((element.requested bounds size).origin.along axis) := by
      refine ⟨hmode, (hcomplete axis _).resolve_right hout, ?_⟩
      intro hover
      obtain ⟨hlow, hhigh⟩ := hmargins axis
      obtain hstart | hend := hover
      · linarith [hinside.1]
      · linarith [hinside.2]
    cases axis with
    | horizontal => exact absurd hturns hnot
    | vertical =>
      refine absurd ⟨fun _ => ?_, fun _ => hturns⟩ hnot
      rw [hshifted]
      exact hturns
  constructor
  · intro axis hnot _
    exact hsnaps axis hnot
  · intro axis hnot _
    rw [hshifted]
    exact hsnaps axis hnot
  · intro axis _
    refine ⟨hcomplete axis _, fun _ _ _ => Or.inl ?_⟩
    rw [hmirrored]

omit [IsStrictOrderedRing X] in
/-- Children without margins are moved to the desired rectangle. -/
theorem place_eq {children : List (Bounds X)} (h : children ≠ [])
    (horigin : (Bounds.unionAll children).origin = bounds.origin) :
    element.place window bounds children =
      element.desired window bounds (Bounds.unionAll children).size := by
  unfold place prepaint
  rw [if_neg (fun hempty => h (List.isEmpty_iff.mp hempty))]
  simp only [Bounds.moved, horigin, add_sub_cancel]
  rfl

/-- **The children are placed where they should be** iff the rectangle before snapping is out of
    the margins or out of the window, and on the other side of the anchor point if it should
    be. -/
theorem placed_iff (element : Anchored X) (window : Window X) (bounds : Bounds X)
    (children : List (Bounds X)) (hchildren : children ≠ [])
    (horigin : (Bounds.unionAll children).origin = bounds.origin)
    (hfits : element.Fits window (Bounds.unionAll children).size) :
    element.Placed window bounds (Bounds.unionAll children).size
        (element.place window bounds children) ↔
      element.Sound window bounds (Bounds.unionAll children).size := by
  rw [place_eq hchildren horigin]
  exact placed_desired_iff hfits

end Ordered

/-- A menu near the right edge of the window. -/
def menu : Anchored ℚ where
  anchor := .topLeft
  fitMode := .switchAnchor
  anchorPosition := some ⟨90, 20⟩
  positionMode := .window
  offset := none

/-- It is opened to the left, and is moved up since it fits neither below nor above. -/
theorem menu_placed :
    let window : Window ℚ := ⟨⟨100, 100⟩, none⟩
    let children : List (Bounds ℚ) := [⟨⟨0, 0⟩, ⟨30, 50⟩⟩, ⟨⟨0, 50⟩, ⟨20, 40⟩⟩]
    let placed := menu.place window ⟨⟨0, 0⟩, ⟨30, 90⟩⟩ children
    menu.Placed window ⟨⟨0, 0⟩, ⟨30, 90⟩⟩ (Bounds.unionAll children).size placed ∧
      placed = ⟨⟨60, 10⟩, ⟨30, 90⟩⟩ := by
  intro window children placed
  have hfits : menu.Fits window (Bounds.unionAll children).size := by
    intro axis
    cases axis <;> constructor <;> decide +kernel
  have hsound : menu.Sound window ⟨⟨0, 0⟩, ⟨30, 90⟩⟩ (Bounds.unionAll children).size :=
    sound_of_anchorPoint (fun axis => by cases axis <;> decide +kernel) (by decide +kernel)
  refine ⟨?_, by decide +kernel⟩
  exact (menu.placed_iff window ⟨⟨0, 0⟩, ⟨30, 90⟩⟩ children (by simp [children]) (by decide +kernel)
    hfits).mpr hsound

/-- A menu at the place where it is laid out. -/
def popover : Anchored ℚ where
  anchor := .topLeft
  fitMode := .switchAnchor
  anchorPosition := none
  positionMode := .local
  offset := none

/-- Near the right edge of the window it fits on the other side, and is moved back instead,
    since the anchor is switched about the origin of the window. -/
theorem popover_not_switched :
    popover.Fits ⟨⟨100, 100⟩, none⟩ ⟨30, 10⟩ ∧
      ¬ popover.Placed ⟨⟨100, 100⟩, none⟩ ⟨⟨80, 0⟩, ⟨30, 10⟩⟩ ⟨30, 10⟩
        (popover.place ⟨⟨100, 100⟩, none⟩ ⟨⟨80, 0⟩, ⟨30, 10⟩⟩ [⟨⟨80, 0⟩, ⟨30, 10⟩⟩]) := by
  constructor
  · intro axis
    cases axis <;> constructor <;> decide +kernel
  · intro h
    have hswitched := h.switched rfl .horizontal (fun h => absurd h.2 (by decide +kernel))
      ⟨by decide +kernel, by decide +kernel⟩
    exact absurd hswitched (by decide +kernel)

end Anchored

end AnchoredElement

end Gpui
