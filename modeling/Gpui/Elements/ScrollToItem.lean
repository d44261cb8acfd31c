import Gpui.Elements.DivScroll
import Gpui.Lib.Machine

/-! # Scrolling to a child of a div

    A child that a handle was asked for should be visible after the first frame that has it.
    The handle looks for it in the children of the frame, with the bounds and the overflow that
    the frame before recorded, and forgets it when it was found.

    * **`shows_item`**: the child is shown in the runs in which the offset that suits the
      recorded bounds suits those of the frame too, and in which the child is not found in a
      frame without children; and in these runs only. -/

namespace Gpui

namespace Div

/-! ### Section 1: Runs -/

/-- A frame that has the child that was asked for, and the vertical offset before it.  The child
    is without the offset. -/
structure Wanted (X : Type) where
  bounds : Bounds X
  overflow : Overflow
  child : Bounds X
  before : X
  maxOffset : X
  /-- A scroll to the bottom was asked for as well. -/
  toBottom : Bool

/-- The frame, and the offset after it. -/
structure Showing (X : Type) extends Wanted X where
  after : X

/-- A handle.  After the comment follows what was asked of it. -/
structure Scrolling (X : Type) where
  handle : ScrollHandleState X
  -- the child to scroll to, until a frame has it, and the frames that had theirs
  requested : Option Nat
  showings : List (Showing X)

inductive Action (X : Type) where
  | scrollToItem (ix : Nat)
  | scrollToTopOfItem (ix : Nat)
  | scrollToBottom
  /-- By other code, or by the mouse. -/
  | setOffset (position : Point X)
  | prepaint (frame : Frame X)

variable {X : Type} [Field X] [LinearOrder X]

section Machine

variable [FloorRing X]

namespace Scrolling

def new : Scrolling X where
  handle := .new
  requested := none
  showings := []

def wanted (pixelsMax : X) (s : Scrolling X) (frame : Frame X) (child : Bounds X) : Wanted X where
  bounds := frame.bounds
  overflow := frame.style.overflow.y
  child := child
  before := s.handle.offset.y
  maxOffset := (frame.scrollMax pixelsMax).y
  toBottom := s.handle.scrollToBottom

def prepaint (pixelsMax : X) (s : Scrolling X) (frame : Frame X) : Scrolling X :=
  match s.requested.bind (frame.children[·]?) with
  | some child =>
      { handle := s.handle.prepaint frame pixelsMax
        requested := none
        showings := s.showings ++
          [{ s.wanted pixelsMax frame child with
            after := (s.handle.prepaint frame pixelsMax).offset.y }] }
  | none => { s with handle := s.handle.prepaint frame pixelsMax }

def step (pixelsMax : X) (s : Scrolling X) : Action X → Option (Run (Scrolling X))
  | .scrollToItem ix =>
      some (.ok { s with handle := s.handle.scrollToItem ix, requested := some ix })
  | .scrollToTopOfItem ix =>
      some (.ok { s with handle := s.handle.scrollToTopOfItem ix, requested := none })
  | .scrollToBottom => some (.ok { s with handle := s.handle.setScrollToBottom })
  | .setOffset position => some (.ok { s with handle := s.handle.setOffset position })
  | .prepaint frame => some (.ok (s.prepaint pixelsMax frame))

end Scrolling

def machine (pixelsMax : X) : Machine Panic (Scrolling X) (Action X) where
  start := .new
  step := Scrolling.step pixelsMax

end Machine

/-! ### Section 2: What scrolling to a child should be -/

/-- A child lies vertically in some bounds when it is shifted. -/
def Shows (bounds child : Bounds X) (offset : X) : Prop :=
  bounds.origin.y ≤ child.origin.y + offset ∧
    child.origin.y + child.size.height + offset ≤ bounds.origin.y + bounds.size.height

/-- The least change of an offset that shows a child. -/
def needed (bounds child : Bounds X) (offset : X) : X :=
  if child.origin.y + offset < bounds.origin.y then bounds.origin.y - child.origin.y
  else if bounds.origin.y + bounds.size.height < child.origin.y + child.size.height + offset then
    bounds.origin.y + bounds.size.height - (child.origin.y + child.size.height)
  else offset

/-- The child can be shown. -/
structure Wanted.Fits (w : Wanted X) : Prop where
  scrolls  : w.overflow = .scroll
  height   : w.child.size.height ≤ w.bounds.size.height
  low      : -w.maxOffset ≤ needed w.bounds w.child w.before
  high     : needed w.bounds w.child w.before ≤ 0
  notAtEnd : w.toBottom = false

/-- It is, and the offset did not change if it was before. -/
structure Showing.Shown (w : Showing X) : Prop where
  shows  : Shows w.bounds w.child w.after
  steady : Shows w.bounds w.child w.before → w.after = w.before

/-- The child stays requested until a frame has it, and that frame shows it. -/
structure Good (s : Scrolling X) : Prop where
  pending : ∀ ix, s.requested = some ix → s.handle.activeItem = some ⟨ix, .firstVisible⟩
  shown   : ∀ w ∈ s.showings, w.Fits → w.Shown

/-! ### Section 3: When it is -/

namespace Wanted

/-- An offset suits the frame: it is the one before if that shows the child, and shows it
    otherwise.  What lies beyond the range is taken back to its end. -/
structure Suits (w : Wanted X) (offset : X) : Prop where
  shown  : Shows w.bounds w.child w.before →
    w.before ≤ max offset (-w.maxOffset) ∧ min offset 0 ≤ w.before
  hidden : ¬ Shows w.bounds w.child w.before →
    w.bounds.origin.y - w.child.origin.y ≤ max offset (-w.maxOffset) ∧
      min offset 0 ≤
        w.bounds.origin.y + w.bounds.size.height - (w.child.origin.y + w.child.size.height)

end Wanted

/-- The offset that suits the recorded bounds suits the frame.  It is that before if the
    handle did not record that the element scrolls, or if the child lies in these bounds. -/
structure Aimed (h : ScrollHandleState X) (w : Wanted X) : Prop where
  resting : (h.overflow.y = .scroll → Shows h.bounds w.child w.before) → w.Suits w.before
  start   : h.overflow.y = .scroll →
    h.bounds.size.height < w.child.size.height ∨
        w.child.origin.y + w.before < h.bounds.origin.y →
      w.Suits (h.bounds.origin.y - w.child.origin.y)
  finish  : h.overflow.y = .scroll →
    w.child.size.height ≤ h.bounds.size.height →
      h.bounds.origin.y ≤ w.child.origin.y + w.before →
        h.bounds.origin.y + h.bounds.size.height <
            w.child.origin.y + w.child.size.height + w.before →
          w.Suits (h.bounds.origin.y + h.bounds.size.height -
            (w.child.origin.y + w.child.size.height))

/-- The condition on the steps. -/
def Heeds [FloorRing X] (pixelsMax : X) (s : Scrolling X) : Action X → Prop
  | .prepaint frame => ∀ ix, s.requested = some ix →
      (∀ child, frame.children[ix]? = some child →
          (s.wanted pixelsMax frame child).Fits →
            Aimed s.handle (s.wanted pixelsMax frame child)) ∧
        -- the children of an earlier frame are still there
        (frame.children = [] → s.handle.childBounds[ix]? = none)
  | _ => True

/-! ### Section 4: Offsets -/

section Ordered

variable [IsStrictOrderedRing X]

omit [IsStrictOrderedRing X] in
/-- A limited value lies in an interval that meets the range, unless it is on the one side of
    it and the end of the range on the same. -/
theorem limit_mem_iff {lo hi n m t : X} (hlo : lo ≤ n) (hhi : n ≤ hi) (hm : -m ≤ n) (hn : n ≤ 0) :
    (lo ≤ max (-m) (min t 0) ∧ max (-m) (min t 0) ≤ hi) ↔ lo ≤ max t (-m) ∧ min t 0 ≤ hi := by
  have hlo0 : lo ≤ 0 := hlo.trans hn
  have hmhi : -m ≤ hi := hm.trans hhi
  rw [le_max_iff, le_min_iff, max_le_iff, le_max_iff]
  constructor
  · rintro ⟨hlow | ⟨hlow, _⟩, _, hhigh⟩
    · exact ⟨Or.inr hlow, hhigh⟩
    · exact ⟨Or.inl hlow, hhigh⟩
  · rintro ⟨hlow | hlow, hhigh⟩
    · exact ⟨Or.inr ⟨hlow, hlo0⟩, hmhi, hhigh⟩
    · exact ⟨Or.inl hlow, hmhi, hhigh⟩

variable {bounds child : Bounds X} {offset : X}

theorem shows_iff :
    Shows bounds child offset ↔
      bounds.origin.y - child.origin.y ≤ offset ∧
        offset ≤ bounds.origin.y + bounds.size.height - (child.origin.y + child.size.height) := by
  constructor
  · intro h
    constructor <;> linarith [h.1, h.2]
  · intro h
    constructor <;> linarith [h.1, h.2]

theorem Shows.height (h : Shows bounds child offset) :
    child.size.height ≤ bounds.size.height := by
  linarith [h.1, h.2]

omit [IsStrictOrderedRing X] in
theorem needed_of_shows (h : Shows bounds child offset) :
    needed bounds child offset = offset := by
  unfold needed
  rw [if_neg (not_lt.mpr h.1), if_neg (not_lt.mpr h.2)]

/-- The offset that is needed shows a child that is not too high. -/
theorem shows_needed (h : child.size.height ≤ bounds.size.height)
    (offset : X) : Shows bounds child (needed bounds child offset) := by
  unfold needed
  split
  · rw [shows_iff]
    constructor <;> linarith
  · split
    · rw [shows_iff]
      constructor <;> linarith
    · next hstart hend => exact ⟨not_lt.mp hstart, not_lt.mp hend⟩

/-- An offset suits a frame iff the frame is right after it was limited. -/
theorem suits_iff {w : Wanted X} (h : w.Fits) (offset : X) :
    w.Suits offset ↔
      Showing.Shown { w with after := max (-w.maxOffset) (min offset 0) } := by
  have hneeded := shows_needed h.height w.before
  by_cases hbefore : Shows w.bounds w.child w.before
  · -- the offset should stay
    have hsame := needed_of_shows hbefore
    have hlimit := limit_mem_iff (t := offset) hsame.ge hsame.le h.low h.high
    constructor
    · intro hsuits
      have hstays := hlimit.mpr (hsuits.shown hbefore)
      have heq : max (-w.maxOffset) (min offset 0) = w.before := le_antisymm hstays.2 hstays.1
      refine ⟨?_, fun _ => heq⟩
      show Shows w.bounds w.child (max (-w.maxOffset) (min offset 0))
      rw [heq]
      exact hbefore
    · intro hshown
      have heq := hshown.steady hbefore
      exact ⟨fun _ => hlimit.mp ⟨heq.ge, heq.le⟩, fun hnot => absurd hbefore hnot⟩
  · have hlimit := limit_mem_iff (t := offset) (shows_iff.mp hneeded).1 (shows_iff.mp hneeded).2
      h.low h.high
    constructor
    · intro hsuits
      exact ⟨shows_iff.mpr (hlimit.mpr (hsuits.hidden hbefore)), fun h => absurd h hbefore⟩
    · intro hshown
      exact ⟨fun h => absurd h hbefore, fun _ => hlimit.mp (shows_iff.mp hshown.shows)⟩

/-- The cases are those of the code. -/
theorem aimed_iff (h : ScrollHandleState X) (w : Wanted X) :
    Aimed h w ↔ w.Suits
      (if h.overflow.y = .scroll then
        alignOffset h.bounds.origin.y h.bounds.size.height w.child.origin.y w.child.size.height
          w.before
      else w.before) := by
  by_cases hscrolls : h.overflow.y = .scroll
  · rw [if_pos hscrolls]
    unfold alignOffset
    split
    · next htall =>
      constructor
      · intro haimed
        exact haimed.start hscrolls (Or.inl htall)
      · intro hsuits
        exact {
          resting := fun hshows => absurd htall (not_lt.mpr (hshows hscrolls).height)
          start := fun _ _ => hsuits
          finish := fun _ hfits => absurd htall (not_lt.mpr hfits) }
    · next hfits =>
      have hfits := not_lt.mp hfits
      split
      · next hstart =>
        constructor
        · intro haimed
          exact haimed.start hscrolls (Or.inr hstart)
        · intro hsuits
          exact {
            resting := fun hshows => absurd (hshows hscrolls).1 (not_le.mpr hstart)
            start := fun _ _ => hsuits
            finish := fun _ _ hnot => absurd hnot (not_le.mpr hstart) }
      · next hstart =>
        split
        · next hend =>
          constructor
          · intro haimed
            exact haimed.finish hscrolls hfits (not_lt.mp hstart) hend
          · intro hsuits
            exact {
              resting := fun hshows => absurd (hshows hscrolls).2 (not_le.mpr hend)
              start := fun _ hout => (hout.elim (not_lt.mpr hfits) hstart).elim
              finish := fun _ _ _ _ => hsuits }
        · next hend =>
          constructor
          · intro haimed
            exact haimed.resting (fun _ => ⟨not_lt.mp hstart, not_lt.mp hend⟩)
          · intro hsuits
            exact {
              resting := fun _ => hsuits
              start := fun _ hout => (hout.elim (not_lt.mpr hfits) hstart).elim
              finish := fun _ _ _ hout => absurd hout hend }
  · rw [if_neg hscrolls]
    constructor
    · intro haimed
      exact haimed.resting (fun h => absurd h hscrolls)
    · intro hsuits
      exact {
        resting := fun _ => hsuits
        start := fun h => absurd h hscrolls
        finish := fun h => absurd h hscrolls }

/-- A handle that recorded the bounds of the frame, and that the element scrolls, is right. -/
theorem aimed_of_recorded {h : ScrollHandleState X} {w : Wanted X} (hfits : w.Fits)
    (hscrolls : h.overflow.y = .scroll) (htop : h.bounds.origin.y = w.bounds.origin.y)
    (hheight : h.bounds.size.height = w.bounds.size.height) : Aimed h w := by
  have halign : alignOffset h.bounds.origin.y h.bounds.size.height w.child.origin.y
      w.child.size.height w.before = needed w.bounds w.child w.before := by
    unfold alignOffset needed
    rw [htop, hheight, if_neg (not_lt.mpr hfits.height)]
  rw [aimed_iff, if_pos hscrolls, halign, suits_iff hfits]
  -- what is needed is in the range
  have hlimit : max (-w.maxOffset) (min (needed w.bounds w.child w.before) 0) =
      needed w.bounds w.child w.before := by
    rw [min_eq_left hfits.high, max_eq_right hfits.low]
  rw [hlimit]
  exact ⟨shows_needed hfits.height w.before, needed_of_shows⟩

end Ordered

/-! ### Section 5: The steps -/

section Steps

variable [FloorRing X]

variable {frame : Frame X} {ix : Nat} {s : Scrolling X}

/-- A frame that has the child answers the request. -/
theorem prepaint_offset {h : ScrollHandleState X} {child : Bounds X}
    (hactive : h.activeItem = some ⟨ix, .firstVisible⟩)
    (hchild : frame.children[ix]? = some child) (hbottom : h.scrollToBottom = false)
    (pixelsMax : X) :
    (h.prepaint frame pixelsMax).offset.y =
      max (-(frame.scrollMax pixelsMax).y)
        (min (if h.overflow.y = .scroll then
            alignOffset h.bounds.origin.y h.bounds.size.height child.origin.y child.size.height
              h.offset.y
          else h.offset.y) 0) := by
  have hupdate : h.updateChildren frame = { h with childBounds := frame.children } := by
    unfold ScrollHandleState.updateChildren
    rw [if_neg]
    intro hempty
    rw [List.isEmpty_iff.mp hempty] at hchild
    cases hchild
  have hscroll : (h.updateChildren frame).scrollToActiveItem =
      { h with
        childBounds := frame.children
        offset := h.alignItem .firstVisible child
        activeItem := none } := by
    rw [hupdate]
    unfold ScrollHandleState.scrollToActiveItem
    rw [hactive]
    dsimp only
    rw [hchild]
    rfl
  unfold ScrollHandleState.prepaint
  rw [hscroll]
  show (if h.scrollToBottom = true then _ else _) = _
  rw [hbottom]
  rfl

/-- A request stays unless the child is found, in this frame or among the children that the
    handle has. -/
theorem prepaint_activeItem {h : ScrollHandleState X}
    (hactive : h.activeItem = some ⟨ix, .firstVisible⟩) (pixelsMax : X) :
    (h.prepaint frame pixelsMax).activeItem =
      if ((h.updateChildren frame).childBounds[ix]?).isSome then none
      else some ⟨ix, .firstVisible⟩ := by
  have hsame : (h.updateChildren frame).activeItem = some ⟨ix, .firstVisible⟩ := by
    unfold ScrollHandleState.updateChildren
    split <;> exact hactive
  show (h.updateChildren frame).scrollToActiveItem.activeItem = _
  unfold ScrollHandleState.scrollToActiveItem
  rw [hsame]
  dsimp only
  cases (h.updateChildren frame).childBounds[ix]? with
  | none => exact hsame
  | some bounds => rfl

omit [Field X] [LinearOrder X] [FloorRing X] in
/-- Where the child of a request is looked for. -/
theorem updateChildren_getElem? (h : ScrollHandleState X) (hmissing : frame.children[ix]? = none) :
    ((h.updateChildren frame).childBounds[ix]?).isSome ↔
      frame.children = [] ∧ h.childBounds[ix]? ≠ none := by
  unfold ScrollHandleState.updateChildren
  by_cases hempty : frame.children = []
  · rw [if_pos (List.isEmpty_iff.mpr hempty), Option.isSome_iff_ne_none]
    exact ⟨fun h => ⟨hempty, h⟩, fun h => h.2⟩
  · rw [if_neg (fun h => hempty (List.isEmpty_iff.mp h))]
    simp [hmissing, hempty]

variable [IsStrictOrderedRing X] {pixelsMax : X}

theorem wanted_shown_iff {child : Bounds X}
    (hactive : s.handle.activeItem = some ⟨ix, .firstVisible⟩)
    (hchild : frame.children[ix]? = some child) (hfits : (s.wanted pixelsMax frame child).Fits) :
    Showing.Shown { s.wanted pixelsMax frame child with
        after := (s.handle.prepaint frame pixelsMax).offset.y } ↔
      Aimed s.handle (s.wanted pixelsMax frame child) := by
  rw [aimed_iff, suits_iff hfits, prepaint_offset hactive hchild hfits.notAtEnd]
  rfl

/-- A frame is right iff it meets the condition. -/
theorem good_prepaint_iff (h : Good s) (frame : Frame X) :
    Good (s.prepaint pixelsMax frame) ↔ Heeds pixelsMax s (.prepaint frame) := by
  cases hrequested : s.requested with
  | none =>
    have hprepaint : s.prepaint pixelsMax frame =
        { s with handle := s.handle.prepaint frame pixelsMax } := by
      unfold Scrolling.prepaint
      rw [hrequested]
      rfl
    rw [hprepaint]
    constructor
    · intro _ ix hix
      rw [hrequested] at hix
      cases hix
    · intro _
      refine ⟨?_, h.shown⟩
      intro ix hix
      exact absurd (hrequested.symm.trans hix) (by simp)
  | some ix =>
    have hactive := h.pending ix hrequested
    have hheeds : ∀ P : Nat → Prop, (∀ ix', s.requested = some ix' → P ix') ↔ P ix := by
      intro P
      rw [hrequested]
      simp
    show _ ↔ ∀ ix', s.requested = some ix' → _
    rw [hheeds]
    cases hchild : frame.children[ix]? with
    | some child =>
      have hprepaint : s.prepaint pixelsMax frame =
          { handle := s.handle.prepaint frame pixelsMax
            requested := none
            showings := s.showings ++
              [{ s.wanted pixelsMax frame child with
                after := (s.handle.prepaint frame pixelsMax).offset.y }] } := by
        unfold Scrolling.prepaint
        rw [hrequested, Option.bind_some, hchild]
      rw [hprepaint]
      constructor
      · intro hgood
        constructor
        · intro child' hchild' hfits
          cases hchild'
          exact (wanted_shown_iff hactive hchild hfits).mp
            (hgood.shown _ (List.mem_append_right _ List.mem_cons_self) hfits)
        · intro hempty
          rw [hempty] at hchild
          cases hchild
      · intro hmeets
        constructor
        · intro ix' hix
          cases hix
        · intro w hw hfits
          obtain hold | hnew := List.mem_append.mp hw
          · exact h.shown w hold hfits
          · obtain rfl := List.mem_singleton.mp hnew
            exact (wanted_shown_iff hactive hchild hfits).mpr (hmeets.1 child rfl hfits)
    | none =>
      have hprepaint : s.prepaint pixelsMax frame =
          { s with handle := s.handle.prepaint frame pixelsMax } := by
        unfold Scrolling.prepaint
        rw [hrequested, Option.bind_some, hchild]
      rw [hprepaint]
      -- the request is still there iff the child was not found
      have hkept : (s.handle.prepaint frame pixelsMax).activeItem = some ⟨ix, .firstVisible⟩ ↔
          (frame.children = [] → s.handle.childBounds[ix]? = none) := by
        rw [prepaint_activeItem hactive]
        have hfound := updateChildren_getElem? s.handle hchild
        by_cases hstale : frame.children = [] ∧ s.handle.childBounds[ix]? ≠ none
        · rw [if_pos (hfound.mpr hstale)]
          constructor
          · intro hnot
            cases hnot
          · intro hnot
            exact absurd (hnot hstale.1) hstale.2
        · rw [if_neg (fun hfinds => hstale (hfound.mp hfinds))]
          exact ⟨fun _ hempty => not_not.mp (fun hnot => hstale ⟨hempty, hnot⟩), fun _ => rfl⟩
      constructor
      · intro hgood
        refine ⟨?_, hkept.mp (hgood.pending ix hrequested)⟩
        intro child hsome
        cases hsome
      · intro hmeets
        refine ⟨?_, h.shown⟩
        intro ix' hix
        cases hrequested.symm.trans hix
        exact hkept.mpr hmeets.2

theorem good_step {s' : Scrolling X} {a : Action X} (h : Good s)
    (hstep : s.step pixelsMax a = some (.ok s')) : Good s' ↔ Heeds pixelsMax s a := by
  cases a with
  | scrollToItem ix =>
    cases hstep
    refine ⟨fun _ => trivial, fun _ => ⟨?_, h.shown⟩⟩
    intro ix' hix
    cases hix
    rfl
  | scrollToTopOfItem ix =>
    cases hstep
    refine ⟨fun _ => trivial, fun _ => ⟨?_, h.shown⟩⟩
    intro ix' hix
    cases hix
  | scrollToBottom | setOffset _ =>
    cases hstep
    exact ⟨fun _ => trivial, fun _ => ⟨h.pending, h.shown⟩⟩
  | prepaint frame =>
    cases hstep
    exact good_prepaint_iff h frame

theorem good_inductive (pixelsMax : X) :
    (machine pixelsMax).Inductive (Heeds pixelsMax) Good where
  start := {
    pending := fun ix hix => by cases hix
    shown := fun w hw => nomatch hw }
  step := fun _ _ _ h hheeds hstep => (good_step h hstep).mpr hheeds

/-! ### Section 6: The result -/

/-- **A child that is scrolled to is shown** in the runs in which the recorded bounds ask for
    an offset that suits the frame, and no frame without children finds it; and in these runs
    only. -/
theorem shows_item (pixelsMax : X) :
    (machine pixelsMax).Exact (Heeds pixelsMax) Good := by
  apply (good_inductive pixelsMax).exact
  · intro s h
    exact h
  · intro s a s' h hstep hnot
    exact ⟨[], s', trivial, rfl, fun hgood => hnot ((good_step h hstep).mp hgood)⟩

end Steps

/-- A list of two items, one of which is visible. -/
def twoItems : Frame ℚ where
  style := ⟨⟨.visible, .scroll⟩, ⟨.fraction 0, .fraction 0, .fraction 0, .fraction 0⟩⟩
  bounds := ⟨⟨0, 0⟩, ⟨10, 10⟩⟩
  children := [⟨⟨0, 0⟩, ⟨10, 10⟩⟩, ⟨⟨0, 10⟩, ⟨10, 10⟩⟩]
  remSize := 16
  scaleFactor := 1

/-- In the second frame the item is shown. -/
theorem secondFrame_shows :
    ∃ s, (machine 1000).run (Scrolling.new : Scrolling ℚ)
      [.prepaint twoItems, .scrollToItem 1, .prepaint twoItems] = some (.ok s) ∧ Good s := by
  have hheeds : (machine 1000).Meets (Heeds 1000) (Scrolling.new : Scrolling ℚ)
      [.prepaint twoItems, .scrollToItem 1, .prepaint twoItems] := by
    refine ⟨?_, ?_⟩
    · intro ix hix
      cases hix
    intro s hs
    cases hs
    refine ⟨trivial, ?_⟩
    intro s hs
    cases hs
    refine ⟨?_, fun _ _ => trivial⟩
    intro ix hix
    cases hix
    constructor
    · intro child hchild hfits
      cases hchild
      exact aimed_of_recorded hfits rfl rfl rfl
    · intro hchildren
      cases hchildren
  exact ⟨_, rfl, (shows_item 1000).good _ (Machine.Reaches.run .start hheeds rfl)⟩

/-- In the first frame the handle does not know yet that the element scrolls, and forgets the
    item. -/
theorem firstFrame_misses :
    ∃ s, (machine 1000).run (Scrolling.new : Scrolling ℚ) [.scrollToItem 1, .prepaint twoItems] =
      some (.ok s) ∧ ¬ Good s := by
  refine ⟨_, rfl, ?_⟩
  intro h
  have hshown := h.shown _ List.mem_cons_self (by constructor <;> decide +kernel)
  exact absurd hshown.shows.2 (by decide +kernel)

end Div

end Gpui
