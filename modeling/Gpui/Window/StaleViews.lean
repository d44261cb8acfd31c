import Gpui.Window.CachedViewsSpec

/-! # Stale views

    A view that is shown must be drawn again when an entity is notified that it shows.  A
    view that is reused is recorded with the entities that were recorded for it when it was
    drawn, and these are not all that were accessed for it: what something before it in
    that frame had accessed is missing, and what its paint and its deferred draws
    accessed. -/

namespace Gpui

open StableSort

namespace CachedViews

namespace State

variable {W V E K : Type}

/-! ### Section 1: The property -/

section Property

/-- Every view that is shown is tracked with the entities that were accessed for it. -/
def Shows (window : W) (s : State W V E K) : Prop :=
  ∀ id, s.isShown id = true → ∃ state, s.elementStates id = some state ∧
    ∀ e ∈ state.shown, e ∈ s.tracking.trackedEntities window

structure Inv (s : State W V E K) : Prop where
  idle : s.tracking.Idle
  noted : ∀ id state, s.elementStates id = some state → state.Noted

variable [DecidableEq W] [DecidableEq E]

/-- Every view that is shown is drawn again if an entity is notified that was accessed for
    what it shows: the window tracks the entity and is invalidated. -/
def Fresh (window : W) (s : State W V E K) : Prop :=
  ∀ id, s.isShown id = true → ∃ state, s.elementStates id = some state ∧
    ∀ e ∈ state.shown, e ∈ s.tracking.trackedEntities window ∧
      ((s.tracking.notify e).invalidators window).dirty = true

theorem Inv.fresh_iff {s : State W V E K} (h : s.Inv) (window : W) :
    s.Fresh window ↔ s.Shows window := by
  constructor
  · intro hfresh id hid
    obtain ⟨state, hstate, hall⟩ := hfresh id hid
    exact ⟨state, hstate, fun e he => (hall e he).1⟩
  · intro hshows id hid
    obtain ⟨state, hstate, hall⟩ := hshows id hid
    exact ⟨state, hstate, fun e he => ⟨hall e he, h.idle.dirty (hall e he)⟩⟩

end Property

/-! ### Section 2: Every frame -/

theorem recorded_startDrawing (rendered : V → Option (ViewElementState E K)) (frame : Frame V E K) :
    Recorded rendered (startDrawing frame) where
  accessed := by
    intro e
    simp [startDrawing]
  states := by
    intro id state hstate
    cases hstate
  reused := by
    intro owners id hmem
    cases hmem

section Shown

variable [DecidableEq V]

variable {rendered : V → Option (ViewElementState E K)} {id : V} {e : E}

theorem mem_shown_entity {owners : List V} {e' : E} :
    e' ∈ (Touch.entity owners e).shown rendered id ↔ id ∈ owners ∧ e' = e := by
  show e' ∈ (if id ∈ owners then {e} else ∅ : Finset E) ↔ _
  split <;> simp [*]

theorem mem_shown_reuse {owners : List V} {reused : V} :
    e ∈ (Touch.reuse owners reused).shown rendered id ↔
      (id ∈ owners ∨ id = reused) ∧ ∃ state, rendered reused = some state ∧ e ∈ state.shown := by
  show e ∈ (if id ∈ owners ∨ id = reused then (rendered reused).elim ∅ ViewElementState.shown
    else ∅ : Finset E) ↔ _
  split
  · rename_i hid
    cases rendered reused <;> simp [hid]
  · rename_i hid
    simp [hid]

variable [DecidableEq E]

theorem mem_shownIn {log : List (Touch V E)} :
    e ∈ shownIn rendered log id ↔ ∃ touch ∈ log, e ∈ touch.shown rendered id := by
  unfold shownIn
  induction log with
  | nil => simp
  | cons touch log ih =>
    rw [List.foldr_cons, Finset.mem_union, ih]
    simp only [List.mem_cons, or_and_right, exists_or, exists_eq_left]

end Shown

variable [DecidableEq V] [DecidableEq E] [DecidableEq K]

/-- What a frame touches. -/
def parts (s : State W V E K) (frame : Frame V E K) : List (Touch V E) :=
  CachedViews.parts frame.context s.elementStates [] frame.context.refreshing frame.root ++
    CachedViews.parts frame.context s.elementStates [] frame.context.refreshing frame.overlay ++
    frame.listeners.map (.entity [])

variable {s : State W V E K} {frame : Frame V E K}

/-- A frame that is drawn goes over its parts. -/
theorem drawRoots_spec {d : Drawing V E K} (h : s.drawRoots frame = .ok d) :
    Recorded s.elementStates d ∧ ∀ t, t ∈ d.log ↔ t ∈ s.parts frame := by
  unfold drawRoots at h
  dsimp only at h
  have hstart := (recorded_startDrawing s.elementStates frame).access [] (layout frame.root)
  obtain ⟨added, deferred, hroot⟩ := prepaint_spec frame.context s.elementStates frame.root []
    ((startDrawing frame).access [] (layout frame.root))
  have hrecorded := hstart.prepaint frame.context [] frame.root
  generalize hr : prepaint frame.context s.elementStates [] frame.root
    ((startDrawing frame).access [] (layout frame.root)) = root at h hroot hrecorded
  -- the paint of the root comes after the rounds
  have hpending : Pending frame.context s.elementStates
      (root.1.log ++ deferred.flatMap (DeferredDraw.parts frame.context s.elementStates))
      (root.1.deferredDraws.drop 0) (root.1, []) := by
    rw [List.drop_zero, hroot.deferredDraws]
    refine ⟨hrecorded, hroot.refreshing, ?_, ?_⟩
    · intro t
      simp [Drawing.access, startDrawing]
    · intro draw hdraw e he
      rw [hroot.log, List.mem_append]
      obtain hlaid | hadded := hroot.laidOut draw (by simpa [Drawing.access, startDrawing] using hdraw)
        e he
      · exact .inl hlaid
      · exact .inr hadded
  split at h
  · cases h
  · rename_i rounds hrounds
    have hdone := hpending.rounds hrounds
    obtain ⟨added', deferred', hoverlay⟩ := prepaint_spec frame.context s.elementStates frame.overlay
      [] (rounds.1.access [] (layout frame.overlay))
    have hrecorded' := (hdone.recorded.access [] (layout frame.overlay)).prepaint frame.context []
      frame.overlay
    split at h
    · cases h
    · rename_i hlength
      cases h
      refine ⟨hrecorded'.paint _, ?_⟩
      intro t
      have hnone : deferred' = [] := by
        rw [hoverlay.deferredDraws, List.length_append] at hlength
        have hzero : deferred'.length = 0 := by
          simp only [Drawing.access] at hlength
          omega
        exact List.length_eq_zero_iff.1 hzero
      have hfirst := hroot.covers t
      have hrest := hdone.covers t
      have hlast := hoverlay.covers t
      have hrefreshing : (rounds.1.access [] (layout frame.overlay)).refreshing =
          frame.context.refreshing := hdone.refreshing
      have hlog : t ∈ root.1.log ↔ t ∈ (layout frame.root).map (.entity []) ∨ t ∈ added := by
        rw [hroot.log, List.mem_append]
        rfl
      have hlog' : t ∈ (rounds.1.access [] (layout frame.overlay)).log ↔
          t ∈ rounds.1.log ∨ t ∈ (layout frame.overlay).map (.entity []) := List.mem_append
      have hlisteners : touches (frame.listeners.map (([] : List V), ·)) =
          frame.listeners.map (.entity []) := touches_owned [] frame.listeners
      have hsorted := mem_touches_sorted rounds.2 t
      rw [log_paint, hoverlay.log]
      simp only [touches_append, List.mem_append, hlog', hsorted, hlisteners]
      unfold parts
      have hsame : ((startDrawing frame).access [] (layout frame.root)).refreshing =
        frame.context.refreshing := rfl
      grind

/-- What is recorded for a frame: the entities that its code accesses, and those that were
    noted for the views it reuses. -/
def Touches (s : State W V E K) (frame : Frame V E K) (e : E) : Prop :=
  (∃ owners, .entity owners e ∈ s.parts frame) ∨
    ∃ owners id state, .reuse owners id ∈ s.parts frame ∧ s.elementStates id = some state ∧
      e ∈ state.inside ∧ e ∉ state.earlier

/-- Whenever a view is reused, the entities that were accessed for it, but before it in its
    frame or not in its prepaint, are touched in the frame. -/
def Repeats (s : State W V E K) : Action W V E K → Prop
  | .frame frame => ∀ owners id, .reuse owners id ∈ s.parts frame →
      ∀ state, s.elementStates id = some state →
        ∀ e ∈ state.shown, e ∈ state.earlier ∨ e ∉ state.inside → s.Touches frame e
  | _ => True

/-- The record of a frame. -/
theorem Inv.accessed_iff (h : s.Inv)
    {d : Drawing V E K} (hdraw : s.drawRoots frame = .ok d) (e : E) :
    e ∈ d.accessedEntities ↔ s.Touches frame e := by
  obtain ⟨hrecorded, hlog⟩ := drawRoots_spec hdraw
  rw [hrecorded.accessed]
  simp only [hlog]
  constructor
  · rintro (haccess | ⟨owners, id, state, hmem, hstate, he⟩)
    · exact .inl haccess
    · exact .inr ⟨owners, id, state, hmem, hstate, (h.noted id state hstate e).1 he⟩
  · rintro (haccess | ⟨owners, id, state, hmem, hstate, he⟩)
    · exact .inl haccess
    · exact .inr ⟨owners, id, state, hmem, hstate, (h.noted id state hstate e).2 he⟩

variable [DecidableEq W]

/-- A frame keeps the views fresh exactly if what is missing for the views it reuses is
    touched in it. -/
theorem Inv.shows_iff {s' : State W V E K} (h : s.Inv) {window : W}
    (hdraw : s.draw window frame = .ok s') : s'.Shows window ↔ s.Repeats
    (.frame frame : Action W V E K) := by
  unfold draw at hdraw
  split at hdraw
  · cases hdraw
  · rename_i d hroots
    cases hdraw
    have haccessed := h.accessed_iff hroots
    obtain ⟨hrecorded, hlog⟩ := drawRoots_spec hroots
    have htracked : ∀ e, e ∈ (s.tracking.drawn window frame.notified
        d.accessedEntities).trackedEntities window ↔ s.Touches frame e := by
      intro e
      rw [Tracking.tracked_drawn, Function.update_self]
      exact haccessed e
    constructor
    · intro hshows owners id hmem state hstate e he _
      -- the view that is reused is shown
      have hreused := hrecorded.reused owners id ((hlog _).2 hmem)
      have hshown : (d.elementStates id).isSome = true := Option.isSome_iff_ne_none.2 hreused
      obtain ⟨state', hstate', hall⟩ := hshows id hshown
      rw [← htracked]
      apply hall
      have hfinish : s.finish frame d id = some state' := hstate'
      unfold finish at hfinish
      split at hfinish
      · cases hfinish
        rw [mem_shownIn]
        refine ⟨.reuse owners id, (hlog _).2 hmem, ?_⟩
        exact mem_shown_reuse.2 ⟨.inr rfl, state, hstate, he⟩
      · rename_i hnone
        exact absurd hnone hreused
    · intro hrepeats id hid
      obtain ⟨state, hstate⟩ := Option.isSome_iff_exists.1 hid
      refine ⟨{ state with shown := shownIn s.elementStates d.log id }, ?_, ?_⟩
      · show s.finish frame d id = _
        unfold finish
        rw [hstate]
      · intro e he
        rw [htracked]
        obtain ⟨touch, hmem, htouch⟩ := mem_shownIn.1 he
        rw [hlog] at hmem
        cases touch with
        | entity owners entity =>
          rw [(mem_shown_entity.1 htouch).2]
          exact .inl ⟨owners, hmem⟩
        | reuse owners reused =>
          obtain ⟨_, state', hreused, he'⟩ := mem_shown_reuse.1 htouch
          -- what was noted for the view is recorded again, the rest by the condition
          by_cases hmissing : e ∈ state'.earlier ∨ e ∉ state'.inside
          · exact hrepeats owners reused hmem state' hreused e he' hmissing
          · push Not at hmissing
            exact .inr ⟨owners, reused, state', hmem, hreused, hmissing.2, hmissing.1⟩

/-! ### Section 3: Runs -/

theorem Inv.draw {s' : State W V E K} (h : s.Inv) {window : W}
    (hdraw : s.draw window frame = .ok s') : s'.Inv := by
  unfold State.draw at hdraw
  split at hdraw
  · cases hdraw
  · rename_i d hroots
    cases hdraw
    obtain ⟨hrecorded, _⟩ := drawRoots_spec hroots
    refine ⟨h.idle.drawn window frame.notified d.accessedEntities, ?_⟩
    intro id state hstate
    have hfinish : s.finish frame d id = some state := hstate
    unfold finish at hfinish
    split at hfinish
    · rename_i drawn hdrawn
      cases hfinish
      obtain hnoted | hrendered := hrecorded.states id drawn hdrawn
      · exact hnoted
      · exact h.noted id drawn hrendered
    · split at hfinish
      · exact h.noted id state hfinish
      · cases hfinish

theorem fresh_inductive (window : W) :
    (machine V E K window).Inductive Repeats (fun s => s.Inv ∧ s.Shows window) where
  start := by
    refine ⟨⟨Tracking.idle_new, ?_⟩, ?_⟩
    · intro id state hstate
      cases hstate
    · intro id hid
      cases hid
  step := by
    intro s a s' h ha hstep
    cases a with
    | frame frame =>
      have hdraw := Option.some.inj hstep
      exact ⟨h.1.draw hdraw, (h.1.shows_iff hdraw).2 ha⟩
    | otherFrame other notified entities =>
      have hguard : other ≠ window ∧
          { s with tracking := s.tracking.drawn other notified entities } = s' := by
        simpa [machine, State.step] using hstep
      obtain ⟨hne, rfl⟩ := hguard
      refine ⟨⟨h.1.idle.drawn other notified entities, h.1.noted⟩, ?_⟩
      intro id hid
      obtain ⟨state, hstate, hall⟩ := h.2 id hid
      refine ⟨state, hstate, ?_⟩
      intro e he
      show e ∈ (s.tracking.drawn other notified entities).trackedEntities window
      rw [Tracking.tracked_drawn, Function.update_of_ne hne.symm]
      exact hall e he
    | notify entity =>
      cases hstep
      refine ⟨⟨h.1.idle.notify entity, h.1.noted⟩, ?_⟩
      intro id hid
      obtain ⟨state, hstate, hall⟩ := h.2 id hid
      refine ⟨state, hstate, ?_⟩
      intro e he
      show e ∈ (s.tracking.notify entity).trackedEntities window
      rw [(Tracking.notified_notify s.tracking entity).tracked]
      exact hall e he

end State

end CachedViews

end Gpui
