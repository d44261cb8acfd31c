import Gpui.Elements.ListState

/-! # The anchor of a pending scroll adjustment

    A pending adjustment names the item, and the offset, of the scroll position it was
    recorded at.  Most operations set the scroll position together with the adjustment;
    `splice` and following the tail set the position only. -/

namespace Gpui

namespace ListState

variable {X F : Type} [Field X] [LinearOrder X]

/-- An adjustment names a scroll position. -/
def Names (pending : PendingScroll X) (scrollTop : ListOffset X) : Prop :=
  match pending with
  | .absolute itemIx offset     => scrollTop = ⟨itemIx, offset⟩
  | .proportional itemIx _ => scrollTop.itemIx = itemIx

/-- A pending adjustment names the scroll position, which is set. -/
def Anchored (state : StateInner X F) : Prop :=
  ∀ pending, state.pendingScroll = some pending →
    ∃ scrollTop, state.logicalScrollTop = some scrollTop ∧ Names pending scrollTop

/-- The position stays where an adjustment is anchored: on the same item, and for an
    absolute adjustment at the same offset. -/
def Stays (pending : PendingScroll X) (before after : ListOffset X) : Prop :=
  match pending with
  | .absolute _ _     => after = before
  | .proportional _ _ => after.itemIx = before.itemIx

/-- The position is at the top of an item, as far as an adjustment tells. -/
def AtItemTop (pending : PendingScroll X) (scrollTop : ListOffset X) : Prop :=
  match pending with
  | .absolute _ _     => scrollTop.offsetInItem = 0
  | .proportional _ _ => True

/-- What a step may do while an adjustment is pending.  A splice may replace the item at
    the scroll position only if it is the first of the range, with the position at its
    top, and other items before it only by as many.  The tail may only be followed if the
    position is at the end. -/
def Allowed (state : StateInner X F) (op : Op X F) : Prop :=
  ∀ pending scrollTop, state.pendingScroll = some pending →
    state.logicalScrollTop = some scrollTop →
    match op with
    | .spliceFocusable first last focusHandles =>
        (first ≤ scrollTop.itemIx → scrollTop.itemIx < last →
          scrollTop.itemIx = first ∧ AtItemTop pending scrollTop) ∧
        (first ≤ last → last ≤ scrollTop.itemIx → focusHandles.length = last - first)
    | .setFollowMode .tail =>
        scrollTop.itemIx = state.items.length ∧ AtItemTop pending scrollTop
    | _ => True

/-! ## One operation -/

section step

variable {state : StateInner X F}

section

omit [Field X] [LinearOrder X]

theorem anchored_of_none (h : state.pendingScroll = none) : Anchored state := by
  intro pending hpending
  rw [h] at hpending
  cases hpending

/-- Only the scroll position and the adjustment matter. -/
theorem anchored_congr {other : StateInner X F} (h : Anchored state)
    (hpending : other.pendingScroll = state.pendingScroll)
    (htop : other.logicalScrollTop = state.logicalScrollTop) : Anchored other := by
  unfold Anchored
  rw [hpending, htop]
  exact h

theorem names_of_stays {pending : PendingScroll X} {before after : ListOffset X}
    (h : Names pending before) : Names pending after ↔ Stays pending before after := by
  cases pending with
  | absolute itemIx offset =>
    obtain rfl : before = ⟨itemIx, offset⟩ := h
    exact Iff.rfl
  | proportional itemIx fraction =>
    obtain rfl : before.itemIx = itemIx := h
    exact Iff.rfl

end

/-- Setting the position and the adjustment together anchors it. -/
theorem anchored_rebaseTo (state : StateInner X F) (scrollTop : ListOffset X) :
    Anchored (state.rebaseTo scrollTop) := by
  intro pending hpending
  refine ⟨scrollTop, rfl, ?_⟩
  change (state.rebasePendingScroll scrollTop).pendingScroll = some pending at hpending
  unfold StateInner.rebasePendingScroll at hpending
  cases hold : state.pendingScroll with
  | none =>
    rw [hold] at hpending
    rw [hold] at hpending
    cases hpending
  | some old =>
    rw [hold] at hpending
    dsimp only at hpending
    split at hpending
    · cases hpending
    · cases old with
      | absolute itemIx offset =>
        cases hpending
        rfl
      | proportional itemIx fraction =>
        dsimp only at hpending
        split at hpending
        · split at hpending
          · cases hpending
            rfl
          · cases hpending
        · cases hpending

variable {after : StateInner X F} {first last : Nat}

section

omit [LinearOrder X]

omit [Field X] in
/-- An operation moves the position: a pending scroll still names it iff it stays with it. -/
theorem anchored_moved_iff (h : Anchored state) (hsame : after.pendingScroll = state.pendingScroll)
    {P : PendingScroll X → ListOffset X → Prop}
    (hmove : ∀ pending scrollTop, state.logicalScrollTop = some scrollTop →
      ∃ moved, after.logicalScrollTop = some moved ∧
        (Stays pending scrollTop moved ↔ P pending scrollTop)) :
    Anchored after ↔ ∀ pending scrollTop, state.pendingScroll = some pending →
      state.logicalScrollTop = some scrollTop → P pending scrollTop := by
  cases hpending : state.pendingScroll with
  | none => exact iff_of_true (anchored_of_none (hsame.trans hpending)) nofun
  | some pending =>
    obtain ⟨scrollTop, htop, hnames⟩ := h pending hpending
    obtain ⟨moved, hafter, hstays⟩ := hmove pending scrollTop htop
    rw [← names_of_stays hnames] at hstays
    have hpending' := hsame.trans hpending
    constructor
    · intro hother _ otherTop hsome hotherTop
      cases hsome
      obtain rfl : scrollTop = otherTop := Option.some.inj (htop.symm.trans hotherTop)
      obtain ⟨_, hmoved, hnames⟩ := hother pending hpending'
      cases hafter.symm.trans hmoved
      exact hstays.mp hnames
    · intro hallowed _ hother
      cases hpending'.symm.trans hother
      exact ⟨moved, hafter, hstays.mpr (hallowed pending scrollTop rfl htop)⟩

theorem spliceFocusable_spec
    {focusHandles : List (Option F)}
    (h : spliceFocusable state first last focusHandles = .ok after) :
    after.pendingScroll = state.pendingScroll ∧
      (∀ scrollTop, state.logicalScrollTop = some scrollTop →
        ∃ moved, spliceScrollTop first last focusHandles.length scrollTop = .ok moved ∧
          after.logicalScrollTop = some moved) := by
  unfold spliceFocusable at h
  cases hitems : replaceItems state.items first last
      (focusHandles.map (fun focusHandle => ListItem.unmeasured none focusHandle)) with
  | error e =>
    rw [hitems] at h
    cases h
  | ok items =>
    rw [hitems] at h
    simp only [Exec.ok_bind] at h
    cases htop : state.logicalScrollTop with
    | none =>
      rw [htop] at h
      cases h
      exact ⟨rfl, fun scrollTop hsome => by cases hsome⟩
    | some scrollTop =>
      rw [htop] at h
      dsimp only at h
      cases hmoved : spliceScrollTop first last focusHandles.length scrollTop with
      | error e =>
        rw [hmoved] at h
        cases h
      | ok moved =>
        rw [hmoved] at h
        cases h
        refine ⟨rfl, ?_⟩
        intro other hother
        cases hother
        exact ⟨moved, hmoved, rfl⟩

/-- A position moves to the top of an item. -/
theorem stays_itemTop_iff (pending : PendingScroll X) (scrollTop : ListOffset X) (itemIx : Nat) :
    Stays pending scrollTop ⟨itemIx, 0⟩ ↔
      scrollTop.itemIx = itemIx ∧ AtItemTop pending scrollTop := by
  obtain ⟨ix, offset⟩ := scrollTop
  cases pending with
  | absolute _ _ =>
    unfold Stays AtItemTop
    simp only [ListOffset.mk.injEq]
    constructor
    · intro ⟨hix, hoffset⟩
      exact ⟨hix.symm, hoffset.symm⟩
    · intro ⟨hix, hoffset⟩
      exact ⟨hix.symm, hoffset.symm⟩
  | proportional _ _ =>
    unfold Stays AtItemTop
    simp only [and_true]
    exact eq_comm

theorem spliceScrollTop_stays_iff {count : Nat} {scrollTop moved : ListOffset X}
    (h : spliceScrollTop first last count scrollTop = .ok moved) (pending : PendingScroll X) :
    Stays pending scrollTop moved ↔
      (first ≤ scrollTop.itemIx → scrollTop.itemIx < last →
        scrollTop.itemIx = first ∧ AtItemTop pending scrollTop) ∧
      (first ≤ last → last ≤ scrollTop.itemIx → count = last - first) := by
  unfold spliceScrollTop at h
  by_cases hinside : first ≤ scrollTop.itemIx ∧ scrollTop.itemIx < last
  · -- the item at the position is replaced
    rw [if_pos hinside] at h
    cases h
    rw [stays_itemTop_iff]
    constructor
    · intro hstays
      exact ⟨fun _ _ => hstays, fun _ hle => absurd hle (Nat.not_le.2 hinside.2)⟩
    · intro hallowed
      exact hallowed.1 hinside.1 hinside.2
  · rw [if_neg hinside] at h
    have houtside : first ≤ scrollTop.itemIx → scrollTop.itemIx < last →
        scrollTop.itemIx = first ∧ AtItemTop pending scrollTop :=
      fun hfirst hlast => absurd ⟨hfirst, hlast⟩ hinside
    by_cases hbefore : last ≤ scrollTop.itemIx
    · rw [if_pos hbefore] at h
      by_cases hbackward : last < first
      · rw [if_pos hbackward] at h
        cases h
      · -- items before the position are replaced
        rw [if_neg hbackward] at h
        cases h
        have hmoved : Stays pending scrollTop
            { scrollTop with itemIx := scrollTop.itemIx - (last - first) + count } ↔
              scrollTop.itemIx - (last - first) + count = scrollTop.itemIx := by
          obtain ⟨ix, offset⟩ := scrollTop
          cases pending with
          | absolute _ _ => simp [Stays]
          | proportional _ _ => exact Iff.rfl
        rw [hmoved]
        constructor
        · intro heq
          exact ⟨houtside, fun _ _ => by omega⟩
        · intro hallowed
          have hcount := hallowed.2 (by omega) hbefore
          omega
    · rw [if_neg hbefore] at h
      cases h
      have hsame : Stays pending scrollTop scrollTop := by
        cases pending with
        | absolute _ _ => rfl
        | proportional _ _ => rfl
      exact iff_of_true hsame ⟨houtside, fun _ hle => absurd hle hbefore⟩

theorem splice_iff (h : Anchored state) {focusHandles : List (Option F)}
    (hstep : spliceFocusable state first last focusHandles = .ok after) :
    Anchored after ↔ Allowed state (.spliceFocusable first last focusHandles) := by
  obtain ⟨hsame, hmove⟩ := spliceFocusable_spec hstep
  apply anchored_moved_iff h hsame
  intro pending scrollTop htop
  obtain ⟨moved, hmoved, hafter⟩ := hmove scrollTop htop
  exact ⟨moved, hafter, spliceScrollTop_stays_iff hmoved pending⟩

theorem followTail_iff (h : Anchored state) :
    Anchored (setFollowMode state .tail) ↔ Allowed state (.setFollowMode .tail) := by
  refine anchored_moved_iff h (rfl : (setFollowMode state .tail).pendingScroll = _) ?_
  intro pending scrollTop _
  exact ⟨state.endOffset, rfl, stays_itemTop_iff pending scrollTop _⟩

theorem anchored_reset {elementCount : Nat}
    (hstep : reset state elementCount = .ok after) : Anchored after :=
  anchored_of_none (spliceFocusable_spec hstep).1

end

theorem anchored_remeasure (h : Anchored state) {scrollAnchor : ScrollAnchor}
    (hstep : remeasureItemsWithScrollAnchor state first last scrollAnchor = .ok after) :
    Anchored after := by
  unfold remeasureItemsWithScrollAnchor at hstep
  cases hitems : replaceItems state.items first last
      (((state.items.take last).drop first).map ListItem.invalidate) with
  | error e =>
    rw [hitems] at hstep
    cases hstep
  | ok items =>
    rw [hitems] at hstep
    cases hstep
    intro pending hpending
    cases htop : state.logicalScrollTop with
    | none =>
      rw [htop] at hpending
      obtain ⟨scrollTop, hsome, _⟩ := h pending hpending
      rw [htop] at hsome
      cases hsome
    | some scrollTop =>
      rw [htop] at hpending
      refine ⟨scrollTop, rfl, ?_⟩
      -- an adjustment that was pending before names the same position
      have hold : state.pendingScroll = some pending → Names pending scrollTop := by
        intro hold
        obtain ⟨other, hother, hnames⟩ := h pending hold
        obtain rfl : scrollTop = other := Option.some.inj (htop.symm.trans hother)
        exact hnames
      dsimp only at hpending
      split at hpending
      · unfold anchorPendingScroll at hpending
        cases scrollAnchor with
        | absolute =>
          cases hpending
          rfl
        | proportional =>
          dsimp only at hpending
          split at hpending
          · cases hpending
            rfl
          · exact hold hpending
      · exact hold hpending

theorem anchored_scrollBy (h : Anchored state) {distance : X}
    (hstep : scrollBy state distance = .ok after) : Anchored after := by
  unfold scrollBy at hstep
  split at hstep
  · cases hstep
    exact h
  · dsimp only at hstep
    generalize (if distance < 0 then
        { state with followState := state.followState.stopFollowing }
      else state) = stopped at hstep
    split at hstep
    · cases hstep
    · cases hstep
      exact anchored_rebaseTo _ _

theorem anchored_setOffsetFromScrollbar (h : Anchored state) (point : Point X) :
    Anchored (state.setOffsetFromScrollbar point) := by
  unfold StateInner.setOffsetFromScrollbar
  cases state.lastLayoutBounds with
  | none => exact h
  | some bounds =>
    dsimp only
    split
    · exact anchored_of_none rfl
    · split
      · exact anchored_of_none rfl
      · exact anchored_rebaseTo _ _

/-- A step keeps the adjustment anchored exactly if it is allowed. -/
theorem apply_iff (h : Anchored state) {op : Op X F}
    (hstep : apply state op = .ok after) : Anchored after ↔ Allowed state op := by
  cases op with
  | spliceFocusable first last focusHandles => exact splice_iff h hstep
  | setFollowMode mode =>
    cases mode with
    | normal =>
      cases hstep
      exact iff_of_true (anchored_congr h rfl rfl) (fun _ _ _ _ => trivial)
    | tail =>
      cases hstep
      exact followTail_iff h
  | reset elementCount => exact iff_of_true (anchored_reset hstep) (fun _ _ _ _ => trivial)
  | remeasure => exact iff_of_true (anchored_remeasure h hstep) (fun _ _ _ _ => trivial)
  | remeasureItems first last =>
    exact iff_of_true (anchored_remeasure h hstep) (fun _ _ _ _ => trivial)
  | scrollBy distance => exact iff_of_true (anchored_scrollBy h hstep) (fun _ _ _ _ => trivial)
  | scrollTo _ | scrollToRevealItem _ =>
    cases hstep
    exact iff_of_true (anchored_rebaseTo _ _) (fun _ _ _ _ => trivial)
  | scrollToEnd =>
    cases hstep
    exact iff_of_true (anchored_of_none rfl) (fun _ _ _ _ => trivial)
  | setOffsetFromScrollbar point =>
    cases hstep
    exact iff_of_true (anchored_setOffsetFromScrollbar h point) (fun _ _ _ _ => trivial)
  | applyUniformItemHeight _ | scrollbarDragStarted | scrollbarDragEnded =>
    cases hstep
    exact iff_of_true (anchored_congr h rfl rfl) (fun _ _ _ _ => trivial)

end step

/-! ## Runs -/

/-- Every state of a run is anchored. -/
def EveryAnchored : StateInner X F → List (Op X F) → Prop
  | state, [] => Anchored state
  | state, op :: rest =>
      Anchored state ∧ ∀ after, apply state op = .ok after → EveryAnchored after rest

/-- Every step of a run is allowed. -/
def EveryAllowed : StateInner X F → List (Op X F) → Prop
  | _, [] => True
  | state, op :: rest =>
      ∀ after, apply state op = .ok after → Allowed state op ∧ EveryAllowed after rest

theorem EveryAnchored.head {state : StateInner X F} {ops : List (Op X F)}
    (h : EveryAnchored state ops) : Anchored state := by
  cases ops with
  | nil => exact h
  | cons op rest => exact h.1

theorem everyAnchored_iff {state : StateInner X F} (h : Anchored state) (ops : List (Op X F)) :
    EveryAnchored state ops ↔ EveryAllowed state ops := by
  induction ops generalizing state with
  | nil => exact iff_of_true h trivial
  | cons op rest ih =>
    constructor
    · intro hevery after hstep
      have hrest := hevery.2 after hstep
      have hafter := hrest.head
      exact ⟨(apply_iff h hstep).1 hafter, (ih hafter).1 hrest⟩
    · intro hallowed
      refine ⟨h, ?_⟩
      intro after hstep
      obtain ⟨hop, hrest⟩ := hallowed after hstep
      exact (ih ((apply_iff h hstep).2 hop)).2 hrest

/-- From a new list, or any list without a pending adjustment, an adjustment is anchored
    in every state of a run exactly if every step is allowed. -/
theorem pendingScroll_anchored_iff (state : StateInner X F) (h : state.pendingScroll = none)
    (ops : List (Op X F)) : EveryAnchored state ops ↔ EveryAllowed state ops :=
  everyAnchored_iff (anchored_of_none h) ops

theorem pendingScroll_anchored_newList :
    ∃ state : StateInner ℚ Unit, new 3 .top 0 = .ok state ∧
      (EveryAnchored state [.scrollTo ⟨1, 10⟩, .remeasureItems 1 2]
        ↔ EveryAllowed state [.scrollTo ⟨1, 10⟩, .remeasureItems 1 2]) :=
  ⟨_, rfl, pendingScroll_anchored_iff _ rfl _⟩

/-- An item that is remeasured and then replaced: the list is at the top of the new item,
    and the offset into the old one stays pending. -/
theorem splice_keeps_offset :
    ¬ ∀ (itemCount : Nat) (alignment : ListAlignment) (overdraw : ℚ) (state : StateInner ℚ Unit)
      (ops : List (Op ℚ Unit)), new itemCount alignment overdraw = .ok state →
        EveryAnchored state ops := by
  intro h
  have hevery := h 3 .top 0 _
    [.scrollTo ⟨1, 10⟩, .remeasureItems 1 2, .spliceFocusable 1 2 [none]] rfl
  have hafter := ((hevery.2 _ rfl).2 _ rfl).2 _ rfl
  obtain ⟨scrollTop, htop, hnames⟩ := hafter _ rfl
  cases htop
  have hoffset : (0 : ℚ) = 10 := congrArg ListOffset.offsetInItem hnames
  norm_num at hoffset

end ListState

end Gpui
