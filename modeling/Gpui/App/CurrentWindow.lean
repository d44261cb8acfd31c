import Gpui.App.WindowsSpec

/-! # The current windows of entities

    The callbacks of an entity are run in its current window.  A window that is closed
    takes itself away from the entities that it tracked in its last draw only, and an
    entity may get a closed window from its creation, or none while another window asked
    for its callbacks. -/

open Exec

namespace Gpui

open List

namespace Windows

namespace State

variable {T C : Type}

/-! ### Section 1: The property and the condition -/

/-- No current window is a closed one, and `with_window` finds a window for the callbacks
    that were asked for by a window that is still open. -/
structure Resolves (s : State T C) : Prop where
  current : ∀ entity id, s.live entity = true → s.currentWindowByEntity entity = some id →
    s.windows id ≠ none
  callbacks : ∀ entity id, (entity, id) ∈ s.requests → s.live entity = true →
    s.windows id ≠ none →
      ∃ other, s.currentWindowByEntity entity = some other ∧ s.windows other ≠ none ∧
        (held s.stack = [] → ∃ removed, s.windows other = some (.kept removed))

/-- A window is closed only while it tracks the entities whose current window it is, and no
    other open window asked for their callbacks; and the creation of an entity is
    announced only while its window is open. -/
def Keeps (s : State T C) : Action T C → Prop
  | .returns => ∀ id stack, s.stack = .window id true :: stack →
      ∀ entity, s.live entity = true → s.currentWindowByEntity entity = some id →
        entity ∈ s.trackedEntities id ∧
          ∀ other, (entity, other) ∈ s.requests → other ≠ id → s.windows other = none
  | .next => ∀ stack entity tid id pendingEffects, s.stack = .flush :: stack →
      s.pendingEffects = .entityCreated entity tid (some id) :: pendingEffects →
        s.windows id ≠ none
  | _ => True

/-! ### Section 2: While the condition is met -/

structure Known (s : State T C) : Prop where
  current : ∀ entity id, s.live entity = true → s.currentWindowByEntity entity = some id →
    s.windows id ≠ none
  requested : ∀ entity id, (entity, id) ∈ s.requests → s.live entity = true →
    s.windows id ≠ none → s.currentWindowByEntity entity ≠ none
  /-- Nothing is known of a window or an entity that is not there yet. -/
  issued : ∀ entity id, (entity, id) ∈ s.requests → entity < s.nextEntity ∧ id < s.nextWindow
  unborn : ∀ entity, s.nextEntity ≤ entity →
    s.live entity = false ∧ s.currentWindowByEntity entity = none
  pending : ∀ entity tid window, .entityCreated entity tid window ∈ s.pendingEffects →
    s.live entity = true

variable {s s' : State T C} {id entity : Nat} {stack : List (Frame T C)}

section

variable (h : s.Known)
include h

theorem Known.resolves (hinv : s.Inv) : s.Resolves where
  current := h.current
  callbacks := by
    intro entity id hmem hlive hopen
    cases hcurrent : s.currentWindowByEntity entity with
    | none => exact absurd hcurrent (h.requested entity id hmem hlive hopen)
    | some other =>
      have hother := h.current entity other hlive hcurrent
      refine ⟨other, rfl, hother, ?_⟩
      intro hheld
      cases hslot : s.windows other with
      | none => exact absurd hslot hother
      | some slot =>
        cases slot with
        | taken => exact absurd hslot (hinv.off_stack hheld other)
        | kept removed => exact ⟨removed, rfl⟩

/-- A step that leaves the entities alone and closes no window. -/
theorem Known.same (hcurrent : s'.currentWindowByEntity = s.currentWindowByEntity)
    (hlive : s'.live = s.live) (hrequests : s'.requests = s.requests)
    (hentity : s'.nextEntity = s.nextEntity) (hnext : s.nextWindow ≤ s'.nextWindow)
    (hwindows : ∀ id, s.windows id ≠ none → s'.windows id ≠ none)
    (hold : ∀ id, id < s.nextWindow → s'.windows id ≠ none → s.windows id ≠ none)
    (hpending : ∀ entity tid window, .entityCreated entity tid window ∈ s'.pendingEffects →
      .entityCreated entity tid window ∈ s.pendingEffects) : s'.Known where
  current := by
    rw [hcurrent, hlive]
    exact fun entity id hl hc => hwindows id (h.current entity id hl hc)
  requested := by
    rw [hcurrent, hlive, hrequests]
    intro entity id hmem hl hopen
    exact h.requested entity id hmem hl (hold id (h.issued entity id hmem).2 hopen)
  issued := by
    rw [hrequests, hentity]
    exact fun entity id hmem =>
      ⟨(h.issued entity id hmem).1, Nat.lt_of_lt_of_le (h.issued entity id hmem).2 hnext⟩
  unborn := by
    rw [hcurrent, hlive, hentity]
    exact h.unborn
  pending := by
    rw [hlive]
    exact fun entity tid window hmem => h.pending entity tid window (hpending _ _ _ hmem)

/-- A step that does not change the map of windows either. -/
theorem Known.quiet (hcurrent : s'.currentWindowByEntity = s.currentWindowByEntity)
    (hlive : s'.live = s.live) (hrequests : s'.requests = s.requests)
    (hentity : s'.nextEntity = s.nextEntity) (hnext : s.nextWindow ≤ s'.nextWindow)
    (hwindows : s'.windows = s.windows)
    (hpending : ∀ entity tid window, .entityCreated entity tid window ∈ s'.pendingEffects →
      .entityCreated entity tid window ∈ s.pendingEffects) : s'.Known := by
  apply h.same hcurrent hlive hrequests hentity hnext _ _ hpending
  · intro id hid
    rw [hwindows]
    exact hid
  · intro id _ hid
    rw [hwindows] at hid
    exact hid

/-- The place of an open window changes. -/
theorem Known.moved (id : Nat) {slot : Slot} (hid : s.windows id ≠ none)
    (hwindows : s'.windows = Function.update s.windows id (some slot))
    (hcurrent : s'.currentWindowByEntity = s.currentWindowByEntity) (hlive : s'.live = s.live)
    (hrequests : s'.requests = s.requests) (hentity : s'.nextEntity = s.nextEntity)
    (hnext : s'.nextWindow = s.nextWindow) (hpending : s'.pendingEffects = s.pendingEffects) :
    s'.Known := by
  apply h.same hcurrent hlive hrequests hentity (Nat.le_of_eq hnext.symm)
  · intro other hother
    rw [hwindows]
    by_cases heq : other = id
    · rw [heq, Function.update_self]
      exact Option.some_ne_none _
    · rw [Function.update_of_ne heq]
      exact hother
  · intro other _ hother
    by_cases heq : other = id
    · rw [heq]
      exact hid
    · rw [hwindows, Function.update_of_ne heq] at hother
      exact hother
  · intro entity tid window hmem
    rw [hpending] at hmem
    exact hmem

theorem Known.startUpdate : s.startUpdate.Known :=
  h.quiet rfl rfl rfl rfl (Nat.le_refl _) rfl (fun _ _ _ hmem => hmem)

theorem Known.takeWindow (htake : s.takeWindow id = some s') : s'.Known := by
  obtain ⟨removed, hslot, rfl⟩ := takeWindow_eq_some htake
  refine h.moved id ?_ rfl rfl rfl rfl rfl rfl rfl
  rw [hslot]
  exact Option.some_ne_none _

theorem Known.updateWindowId (id : Nat) : (s.updateWindowId id).Known := by
  unfold State.updateWindowId
  cases htake : s.takeWindow id with
  | none => exact h.startUpdate
  | some s' => exact h.takeWindow htake

theorem Known.withWindow (entity : Nat) : (s.withWindow entity).Known := by
  unfold State.withWindow
  split
  · exact h
  · exact h.updateWindowId _

/-- The id of a new window is nobody's current window and in no request. -/
theorem Known.openWindow : s.openWindow.Known := by
  refine h.same rfl rfl rfl rfl (Nat.le_succ _) ?_ ?_ ?_
  · intro id hid
    show Function.update s.windows s.nextWindow _ id ≠ none
    by_cases heq : id = s.nextWindow
    · rw [heq, Function.update_self]
      exact Option.some_ne_none _
    · rw [Function.update_of_ne heq]
      exact hid
  · intro id hlt hid
    have hid : Function.update s.windows s.nextWindow (some .taken) id ≠ none := hid
    rw [Function.update_of_ne (by omega)] at hid
    exact hid
  · exact fun _ _ _ hmem => hmem

theorem Known.finishUpdate (stack : List (Frame T C)) : (s.finishUpdate stack).Known := by
  unfold State.finishUpdate
  split
  all_goals exact h.quiet rfl rfl rfl rfl (Nat.le_refl _) rfl (fun _ _ _ hmem => hmem)

/-- A window is closed that tracks the entities whose current window it is. -/
theorem Known.closeWindow
    (hkeeps : ∀ entity, s.live entity = true → s.currentWindowByEntity entity = some id →
      entity ∈ s.trackedEntities id ∧
        ∀ other, (entity, other) ∈ s.requests → other ≠ id → s.windows other = none) :
    (s.closeWindow id).Known where
  current := by
    intro entity other hlive hcurrent
    have hwas : s.currentWindowByEntity entity = some other ∧
        ¬ (entity ∈ s.trackedEntities id ∧ s.currentWindowByEntity entity = some id) := by
      have hif : (if entity ∈ s.trackedEntities id ∧ s.currentWindowByEntity entity = some id
        then none else s.currentWindowByEntity entity) = some other := hcurrent
      split at hif
      · cases hif
      · rename_i hnot
        exact ⟨hif, hnot⟩
    have hother : other ≠ id := by
      rintro rfl
      exact hwas.2 ⟨(hkeeps entity hlive hwas.1).1, hwas.1⟩
    show Function.update s.windows id none other ≠ none
    rw [Function.update_of_ne hother]
    exact h.current entity other hlive hwas.1
  requested := by
    intro entity other hmem hlive hopen
    have hother : other ≠ id := by
      rintro rfl
      have hgone : Function.update s.windows other none other ≠ none := hopen
      rw [Function.update_self] at hgone
      exact hgone rfl
    have hwas : s.windows other ≠ none := by
      have hopen : Function.update s.windows id none other ≠ none := hopen
      rwa [Function.update_of_ne hother] at hopen
    show (if entity ∈ s.trackedEntities id ∧ s.currentWindowByEntity entity = some id
      then none else s.currentWindowByEntity entity) ≠ none
    rw [if_neg]
    · exact h.requested entity other hmem hlive hwas
    · -- the other window asked for the callbacks of the entity
      rintro ⟨_, hcurrent⟩
      exact hwas ((hkeeps entity hlive hcurrent).2 other hmem hother)
  issued := h.issued
  unborn := by
    intro entity hle
    refine ⟨(h.unborn entity hle).1, ?_⟩
    show (if entity ∈ s.trackedEntities id ∧ s.currentWindowByEntity entity = some id
      then none else s.currentWindowByEntity entity) = none
    rw [(h.unborn entity hle).2]
    simp
  pending := h.pending

theorem Known.trail (hkeeps : Keeps s .returns) {removed : Bool}
    (hstack : s.stack = .window id removed :: stack) (htrail : s.trail id removed stack = .ok s') :
    s'.Known := by
  unfold State.trail at htrail
  dsimp only at htrail
  split at htrail
  · rename_i hremoved
    cases htrail
    rw [hremoved] at hstack
    have hclosed := h.closeWindow (hkeeps id stack hstack)
    exact ⟨hclosed.current, hclosed.requested, hclosed.issued, hclosed.unborn, hclosed.pending⟩
  · split at htrail
    · rename_i slot hslot
      cases htrail
      refine h.moved id ?_ rfl rfl rfl rfl rfl rfl rfl
      rw [hslot]
      exact Option.some_ne_none _
    · split at htrail
      · cases htrail
      · cases htrail
        exact h.quiet rfl rfl rfl rfl (Nat.le_refl _) rfl (fun _ _ _ hmem => hmem)

theorem Known.opened {removed drawing : Bool}
    (hopened : s.opened id removed drawing stack = .ok s') :
    s'.Known := by
  unfold State.opened at hopened
  split at hopened
  · split at hopened
    · cases hopened
    · rename_i slot hslot
      cases hopened
      refine h.moved id ?_ rfl rfl rfl rfl rfl rfl rfl
      rw [hslot]
      exact Option.some_ne_none _
  · cases hopened
    refine h.quiet rfl rfl rfl rfl (Nat.le_refl _) rfl ?_
    intro entity tid window hmem
    simpa using hmem

/-- A live entity gets an open window. -/
theorem Known.setCurrent (hid : s.windows id ≠ none)
    (hcurrent : ∀ entity, s'.currentWindowByEntity entity = s.currentWindowByEntity entity ∨
      (entity < s.nextEntity ∧ s'.currentWindowByEntity entity = some id))
    (hwindows : s'.windows = s.windows) (hlive : s'.live = s.live)
    (hrequests : s'.requests = s.requests) (hentity : s'.nextEntity = s.nextEntity)
    (hnext : s'.nextWindow = s.nextWindow)
    (hpending : ∀ entity tid window, .entityCreated entity tid window ∈ s'.pendingEffects →
      .entityCreated entity tid window ∈ s.pendingEffects) : s'.Known where
  current := by
    rw [hlive, hwindows]
    intro entity other hl hc
    obtain hsame | ⟨_, hset⟩ := hcurrent entity
    · rw [hsame] at hc
      exact h.current entity other hl hc
    · rw [hset, Option.some.injEq] at hc
      exact hc ▸ hid
  requested := by
    rw [hlive, hrequests, hwindows]
    intro entity other hmem hl hopen
    obtain hsame | ⟨_, hset⟩ := hcurrent entity
    · rw [hsame]
      exact h.requested entity other hmem hl hopen
    · rw [hset]
      exact Option.some_ne_none _
  issued := by
    rw [hrequests, hentity, hnext]
    exact h.issued
  unborn := by
    rw [hlive, hentity]
    intro entity hle
    refine ⟨(h.unborn entity hle).1, ?_⟩
    obtain hsame | ⟨hlt, _⟩ := hcurrent entity
    · rw [hsame]
      exact (h.unborn entity hle).2
    · omega
  pending := by
    rw [hlive]
    exact fun entity tid window hmem => h.pending entity tid window (hpending _ _ _ hmem)

theorem Known.recordEntitiesAccessed (hinv : s.Inv) {entities : List Nat}
    (hheld : s.stack.any (holds id) = true) (hentities : entities.all (· < s.nextEntity) = true) :
    (s.recordEntitiesAccessed id entities).Known := by
  refine h.setCurrent (hinv.holds_open hheld) ?_ rfl rfl rfl rfl rfl (fun _ _ _ hmem => hmem)
  intro entity
  show (if entity ∈ entities then some id else s.currentWindowByEntity entity) = _ ∨ _
  by_cases hmem : entity ∈ entities
  · right
    refine ⟨?_, if_pos hmem⟩
    simpa using all_eq_true.1 hentities entity hmem
  · exact .inl (if_neg hmem)

theorem Known.ensureWindow (hinv : s.Inv) (hheld : s.stack.any (holds id) = true)
    (hlive : s.live entity = true) :
    (s.ensureWindow entity id).Known := by
  have hborn : entity < s.nextEntity := by
    by_contra hnot
    rw [(h.unborn entity (by omega)).1] at hlive
    cases hlive
  have hopen := hinv.holds_open hheld
  -- without the request the entity gets its own window again, or the open one
  have hset : ∀ other, (s.ensureWindow entity id).currentWindowByEntity other =
      if other = entity then some ((s.currentWindowByEntity entity).getD id)
      else s.currentWindowByEntity other := by
    intro other
    show Function.update s.currentWindowByEntity entity _ other = _
    by_cases heq : other = entity
    · rw [heq, Function.update_self, if_pos rfl]
    · rw [Function.update_of_ne heq, if_neg heq]
  refine ⟨?_, ?_, ?_, ?_, h.pending⟩
  · intro other window hl hc
    rw [hset] at hc
    split at hc
    · rename_i heq
      subst heq
      cases hcurrent : s.currentWindowByEntity other with
      | none =>
        rw [hcurrent] at hc
        cases hc
        exact hopen
      | some was =>
        rw [hcurrent] at hc
        cases hc
        exact h.current other was hl hcurrent
    · exact h.current other window hl hc
  · intro other window hmem hl hw
    rw [hset]
    split
    · exact Option.some_ne_none _
    · rename_i hne
      obtain hmem | hmem := mem_append.1 hmem
      · exact h.requested other window hmem hl hw
      · rw [mem_singleton, Prod.mk.injEq] at hmem
        exact absurd hmem.1 hne
  · intro other window hmem
    obtain hmem | hmem := mem_append.1 hmem
    · exact h.issued other window hmem
    · rw [mem_singleton, Prod.mk.injEq] at hmem
      rw [hmem.1, hmem.2]
      exact ⟨hborn, hinv.holding.issued id hopen⟩
  · intro other hle
    refine ⟨(h.unborn other hle).1, ?_⟩
    have hle : s.nextEntity ≤ other := hle
    rw [hset, if_neg (by omega)]
    exact (h.unborn other hle).2

theorem Known.reserveEntity : s.reserveEntity.Known := by
  have hnew := h.unborn s.nextEntity (Nat.le_refl _)
  have hlive : ∀ entity, s.reserveEntity.live entity = true →
      entity = s.nextEntity ∨ s.live entity = true := by
    intro entity hl
    have hl : Function.update s.live s.nextEntity true entity = true := hl
    by_cases heq : entity = s.nextEntity
    · exact .inl heq
    · rw [Function.update_of_ne heq] at hl
      exact .inr hl
  refine ⟨?_, ?_, ?_, ?_, ?_⟩
  · intro entity id hl hc
    obtain rfl | hl := hlive entity hl
    · have hc : s.currentWindowByEntity s.nextEntity = some id := hc
      rw [hnew.2] at hc
      cases hc
    · exact h.current entity id hl hc
  · intro entity id hmem hl hw
    have hborn := (h.issued entity id hmem).1
    obtain rfl | hl := hlive entity hl
    · exact absurd hborn (Nat.lt_irrefl _)
    · exact h.requested entity id hmem hl hw
  · intro entity id hmem
    exact ⟨Nat.lt_succ_of_lt (h.issued entity id hmem).1, (h.issued entity id hmem).2⟩
  · intro entity hle
    have hle : s.nextEntity + 1 ≤ entity := hle
    have hold := h.unborn entity (by omega)
    refine ⟨?_, hold.2⟩
    show Function.update s.live s.nextEntity true entity = false
    rw [Function.update_of_ne (by omega)]
    exact hold.1
  · intro entity tid window hmem
    show Function.update s.live s.nextEntity true entity = true
    by_cases heq : entity = s.nextEntity
    · rw [heq, Function.update_self]
    · rw [Function.update_of_ne heq]
      exact h.pending entity tid window hmem

theorem Known.newEntity (tid : T) (hlive : s.live entity = true) :
    (s.newEntity entity tid).Known := by
  refine ⟨h.current, h.requested, h.issued, h.unborn, ?_⟩
  intro e t window hmem
  obtain hmem | hmem := mem_append.1 hmem
  · exact h.pending e t window hmem
  · rw [mem_singleton, Effect.entityCreated.injEq] at hmem
    rw [hmem.1]
    exact hlive

/-- The entity is not live any more, and no effect has a handle of it. -/
theorem Known.releaseEntity (hfree : s.pendingEffects.any (Effect.holds entity) = false)
    (stack : List (Frame T C)) :
    { s.setCurrentWindow entity none with
      live := Function.update s.live entity false
      stack := stack }.Known := by
  have hother : ∀ e, Function.update s.live entity false e = true → e ≠ entity ∧ s.live e = true := by
    intro e hl
    by_cases heq : e = entity
    · rw [heq, Function.update_self] at hl
      cases hl
    · rw [Function.update_of_ne heq] at hl
      exact ⟨heq, hl⟩
  refine ⟨?_, ?_, h.issued, ?_, ?_⟩
  · intro e id hl hc
    obtain ⟨hne, hl⟩ := hother e hl
    have hc : Function.update s.currentWindowByEntity entity none e = some id := hc
    rw [Function.update_of_ne hne] at hc
    exact h.current e id hl hc
  · intro e id hmem hl hw
    obtain ⟨hne, hl⟩ := hother e hl
    show Function.update s.currentWindowByEntity entity none e ≠ none
    rw [Function.update_of_ne hne]
    exact h.requested e id hmem hl hw
  · intro e hle
    refine ⟨?_, ?_⟩
    · show Function.update s.live entity false e = false
      by_cases heq : e = entity
      · rw [heq, Function.update_self]
      · rw [Function.update_of_ne heq]
        exact (h.unborn e hle).1
    · show Function.update s.currentWindowByEntity entity none e = none
      by_cases heq : e = entity
      · rw [heq, Function.update_self]
      · rw [Function.update_of_ne heq]
        exact (h.unborn e hle).2
  · intro e tid window hmem
    show Function.update s.live entity false e = true
    have hne : e ≠ entity := by
      rintro rfl
      have hnot := any_eq_false.1 hfree _ hmem
      simp [Effect.holds] at hnot
    rw [Function.update_of_ne hne]
    exact h.pending e tid window hmem

end

theorem Known.flushEffects [DecidableEq T] (h : s.Known) (hkeeps : Keeps s .next)
    (hstack : s.stack = .flush :: stack) :
    (s.flushEffects stack).Known := by
  unfold State.flushEffects
  split
  · exact h.quiet rfl rfl rfl rfl (Nat.le_refl _) rfl (fun _ _ _ hmem => hmem)
  · rename_i pendingEffects hpending
    refine h.quiet rfl rfl rfl rfl (Nat.le_refl _) rfl ?_
    intro entity tid window hmem
    rw [hpending]
    exact mem_cons_of_mem _ hmem
  · rename_i entity tid window pendingEffects hpending
    have hrest : ∀ e t w, .entityCreated e t w ∈ pendingEffects →
        .entityCreated e t w ∈ s.pendingEffects := by
      intro e t w hmem
      rw [hpending]
      exact mem_cons_of_mem _ hmem
    have hseed : ({ s with pendingEffects := pendingEffects }.seedWindow entity window).Known := by
      cases window with
      | none => exact h.quiet rfl rfl rfl rfl (Nat.le_refl _) rfl hrest
      | some id =>
        -- the effect has a handle, so the entity is live
        have hlive := h.pending entity tid (some id) (by rw [hpending]; exact mem_cons_self)
        refine h.setCurrent (hkeeps stack entity tid id pendingEffects hstack hpending) ?_ rfl rfl
          rfl rfl rfl hrest
        intro e
        show Function.update s.currentWindowByEntity entity (some id) e = _ ∨ _
        by_cases heq : e = entity
        · right
          refine ⟨?_, ?_⟩
          · by_contra hnot
            rw [← heq, (h.unborn e (by omega)).1] at hlive
            cases hlive
          · show Function.update s.currentWindowByEntity entity (some id) e = some id
            rw [heq, Function.update_self]
        · exact .inl (Function.update_of_ne heq _ _)
    unfold State.applyEntityCreated State.startAnnouncement
    split
    · exact hseed
    · exact hseed
    · exact hseed.quiet rfl rfl rfl rfl (Nat.le_refl _) rfl (fun _ _ _ hmem => hmem)

theorem Known.announce (h : s.Known) {tid : T} [DecidableEq T]
    {window : Option Nat} {called : Option (Nat × C)} {remaining kept : List (Nat × C)}
    (hannounce : s.announce entity tid window called remaining kept stack = .ok s') : s'.Known := by
  have hframe : ∀ (observers : SubscriberSet T C) (stack : List (Frame T C)),
      { s with newEntityObservers := observers, stack := stack }.Known :=
    fun _ _ => h.quiet rfl rfl rfl rfl (Nat.le_refl _) rfl (fun _ _ _ hmem => hmem)
  unfold State.announce at hannounce
  split at hannounce
  · cases hannounce
    exact hframe _ _
  · unfold State.announceNext at hannounce
    split at hannounce
    · cases hannounce
      exact hframe _ _
    · dsimp only at hannounce
      split at hannounce
      · cases hannounce
        exact hframe _ _
      · split at hannounce
        · cases hannounce
          exact hframe _ _
        · split at hannounce
          · cases hannounce
            exact hframe _ _
          · split at hannounce
            · rename_i htake
              cases hannounce
              exact (hframe _ _).takeWindow htake
            · cases hannounce

/-! ### Section 3: Where it is not met -/

/-- The window of an entity that it does not track, or whose callbacks another open window
    asked for, is closed. -/
theorem closeWindow_spoils
    (htrail : s.trail id true stack = .ok s') (hlive : s.live entity = true)
    (hcurrent : s.currentWindowByEntity entity = some id) (hnot : ¬ (entity ∈ s.trackedEntities id ∧
      ∀ other, (entity, other) ∈ s.requests → other ≠ id → s.windows other = none)) :
    ¬ s'.Resolves := by
  cases htrail
  intro hresolves
  by_cases htracked : entity ∈ s.trackedEntities id
  · -- no window is left for the callbacks
    have hother : ∃ other, (entity, other) ∈ s.requests ∧ other ≠ id ∧ s.windows other ≠ none := by
      by_contra hnone
      push Not at hnone
      exact hnot ⟨htracked, hnone⟩
    obtain ⟨other, hmem, hne, hopen⟩ := hother
    have hkept : Function.update s.windows id none other ≠ none := by
      rw [Function.update_of_ne hne]
      exact hopen
    obtain ⟨window, hwindow, _⟩ := hresolves.callbacks entity other hmem hlive hkept
    have hif : (if entity ∈ s.trackedEntities id ∧ s.currentWindowByEntity entity = some id
      then none else s.currentWindowByEntity entity) = some window := hwindow
    rw [if_pos ⟨htracked, hcurrent⟩] at hif
    cases hif
  · -- the entity keeps the closed window
    apply hresolves.current entity id hlive
    · show (if entity ∈ s.trackedEntities id ∧ s.currentWindowByEntity entity = some id
        then none else s.currentWindowByEntity entity) = some id
      rw [if_neg (fun hand => htracked hand.1)]
      exact hcurrent
    · show Function.update s.windows id none id = none
      rw [Function.update_self]

variable [DecidableEq T]

/-- An entity is announced whose window is closed. -/
theorem flushEffects_spoils (h : s.Known) {tid : T} {pendingEffects : List (Effect T)}
    (hpending : s.pendingEffects = .entityCreated entity tid (some id) :: pendingEffects)
    (hclosed : s.windows id = none) : ¬ (s.flushEffects stack).Resolves := by
  have hlive := h.pending entity tid (some id) (by rw [hpending]; exact mem_cons_self)
  have hwindows : ∀ s : State T C,
      (s.startAnnouncement entity tid (some id)).windows = s.windows ∧
      (s.startAnnouncement entity tid (some id)).live = s.live ∧
      (s.startAnnouncement entity tid (some id)).currentWindowByEntity =
        s.currentWindowByEntity := by
    intro s
    unfold State.startAnnouncement
    split <;> exact ⟨rfl, rfl, rfl⟩
  intro hresolves
  unfold State.flushEffects at hresolves
  rw [hpending] at hresolves
  obtain ⟨hsame, hsameLive, hsameCurrent⟩ :=
    hwindows ({ s with pendingEffects := pendingEffects }.seedWindow entity (some id))
  apply hresolves.current entity id
  · show ((State.seedWindow _ entity (some id)).startAnnouncement entity tid (some id)).live
      entity = true
    rw [hsameLive]
    exact hlive
  · show ((State.seedWindow _ entity (some id)).startAnnouncement entity tid
      (some id)).currentWindowByEntity entity = some id
    rw [hsameCurrent]
    exact Function.update_self _ _ _
  · show ((State.seedWindow _ entity (some id)).startAnnouncement entity tid (some id)).windows
      id = none
    rw [hsame]
    exact hclosed

/-! ### Section 4: Runs -/

theorem Known.step {a : Action T C} (h : s.Known) (hinv : s.Inv)
    (ha : Keeps s a) (hstep : s.step a = some (.ok s')) : s'.Known := by
  unfold State.step at hstep
  cases a with
  | startUpdate =>
    obtain ⟨_, rfl⟩ := Machine.guarded_ok_iff.1 hstep
    exact h.startUpdate
  | reserveEntity =>
    obtain ⟨_, rfl⟩ := Machine.guarded_ok_iff.1 hstep
    exact h.reserveEntity
  | newEntity entity tid =>
    dsimp only at hstep
    split at hstep
    · simp only [Option.ite_none_right_eq_some, Option.some.injEq, Except.ok.injEq] at hstep
      obtain ⟨hlive, rfl⟩ := hstep
      exact h.newEntity tid hlive
    · cases hstep
  | pushEffect =>
    obtain ⟨_, rfl⟩ := Machine.guarded_ok_iff.1 hstep
    refine h.quiet rfl rfl rfl rfl (Nat.le_refl _) rfl ?_
    intro entity tid window hmem
    simpa using hmem
  | observe _ | removeWindow _ =>
    obtain ⟨_, rfl⟩ := Machine.guarded_ok_iff.1 hstep
    exact h.quiet rfl rfl rfl rfl (Nat.le_refl _) rfl (fun _ _ _ hmem => hmem)
  | openWindow =>
    obtain ⟨_, rfl⟩ := Machine.guarded_ok_iff.1 hstep
    exact h.openWindow
  | openWindowFails =>
    obtain ⟨_, rfl⟩ := Machine.guarded_ok_iff.1 hstep
    exact h.quiet rfl rfl rfl rfl (Nat.le_succ _) rfl (fun _ _ _ hmem => hmem)
  | updateWindow id =>
    obtain ⟨_, rfl⟩ := Machine.guarded_ok_iff.1 hstep
    exact h.updateWindowId id
  | withWindow entity =>
    obtain ⟨_, rfl⟩ := Machine.guarded_ok_iff.1 hstep
    exact h.withWindow entity
  | recordEntitiesAccessed id entities =>
    obtain ⟨⟨_, hheld, hentities⟩, rfl⟩ := Machine.guarded_ok_iff.1 hstep
    exact h.recordEntitiesAccessed hinv hheld hentities
  | ensureWindow entity id =>
    obtain ⟨⟨_, hheld, hlive⟩, rfl⟩ := Machine.guarded_ok_iff.1 hstep
    exact h.ensureWindow hinv hheld hlive
  | returns =>
    dsimp only at hstep
    split at hstep
    · cases hstep
      exact h.finishUpdate _
    · rename_i id removed stack hstack
      exact h.trail ha hstack (Option.some.inj hstep)
    · exact h.opened (Option.some.inj hstep)
    · cases hstep
      exact h.quiet rfl rfl rfl rfl (Nat.le_refl _) rfl (fun _ _ _ hmem => hmem)
    · cases hstep
  | releaseEntity entity =>
    dsimp only at hstep
    split at hstep
    · simp only [Option.ite_none_right_eq_some, Option.some.injEq, Except.ok.injEq] at hstep
      obtain ⟨hfree, rfl⟩ := hstep
      simp only [Bool.and_eq_true, Bool.not_eq_true'] at hfree
      exact h.releaseEntity hfree.2 _
    · cases hstep
  | releaseFocusHandles =>
    dsimp only at hstep
    split at hstep
    · cases hstep
      exact h.quiet rfl rfl rfl rfl (Nat.le_refl _) rfl (fun _ _ _ hmem => hmem)
    · cases hstep
  | next =>
    dsimp only at hstep
    split at hstep
    · rename_i stack hstack
      cases hstep
      exact h.flushEffects ha hstack
    · exact h.announce (Option.some.inj hstep)
    · cases hstep
      exact h.quiet rfl rfl rfl rfl (Nat.le_refl _) rfl (fun _ _ _ hmem => hmem)
    · cases hstep

theorem known_inductive : (machine T C).Inductive Keeps (fun s => s.Inv ∧ s.Known) where
  start := by
    refine ⟨inv_start, ?_, ?_, ?_, ?_, ?_⟩
    · intro entity id hlive
      cases hlive
    · intro entity id hmem
      cases hmem
    · intro entity id hmem
      cases hmem
    · exact fun entity _ => ⟨rfl, rfl⟩
    · intro entity tid window hmem
      cases hmem
  step := by
    intro s a s' h ha hstep
    exact ⟨h.1.step hstep, h.2.step h.1 ha hstep⟩

/-- The current windows resolve in all the runs whose steps meet the condition, and a step
    that does not meet it leaves an entity without a window. -/
theorem current_windows : (machine T C).Exact Keeps Resolves := by
  apply known_inductive.exact
  · exact fun s h => h.2.resolves h.1
  · intro s a s' h hstep hnot
    refine ⟨[], s', trivial, rfl, ?_⟩
    cases a with
    | returns =>
      have hspoiled : ∃ id stack entity, s.stack = .window id true :: stack ∧
          s.live entity = true ∧ s.currentWindowByEntity entity = some id ∧
          ¬ (entity ∈ s.trackedEntities id ∧
            ∀ other, (entity, other) ∈ s.requests → other ≠ id → s.windows other = none) := by
        by_contra hnone
        apply hnot
        intro id stack hstack entity hlive hcurrent
        by_contra hbad
        exact hnone ⟨id, stack, entity, hstack, hlive, hcurrent, hbad⟩
      obtain ⟨id, stack, entity, hstack, hlive, hcurrent, hbad⟩ := hspoiled
      have htrail : s.trail id true stack = .ok s' := by
        have hreturns : s.step .returns = some (.ok s') := hstep
        unfold State.step at hreturns
        rw [hstack] at hreturns
        exact Option.some.inj hreturns
      exact closeWindow_spoils htrail hlive hcurrent hbad
    | next =>
      have hspoiled : ∃ stack entity tid id pendingEffects, s.stack = .flush :: stack ∧
          s.pendingEffects = .entityCreated entity tid (some id) :: pendingEffects ∧
          s.windows id = none := by
        by_contra hnone
        apply hnot
        intro stack entity tid id pendingEffects hstack hpending hclosed
        exact hnone ⟨stack, entity, tid, id, pendingEffects, hstack, hpending, hclosed⟩
      obtain ⟨stack, entity, tid, id, pendingEffects, hstack, hpending, hclosed⟩ := hspoiled
      have hflush : s' = s.flushEffects stack := by
        have hnext : s.step .next = some (.ok s') := hstep
        unfold State.step at hnext
        rw [hstack] at hnext
        exact (Except.ok.inj (Option.some.inj hnext)).symm
      rw [hflush]
      exact flushEffects_spoils h.2 hpending hclosed
    | _ => exact absurd trivial hnot

/-- The window is closed in which an entity was created that it did not draw. -/
theorem closed_window_stays :
    ¬ ∀ s : State Nat Unit, (machine Nat Unit).Reaches (fun _ _ => True) s → s.Resolves := by
  intro h
  have hrun : ∃ s, (machine Nat Unit).run start
      [.openWindow, .startUpdate, .reserveEntity, .newEntity 0 0, .returns, .returns, .returns,
        .returns, .next, .next, .returns, .next, .next,
        .updateWindow 0, .removeWindow 0, .returns] = some (.ok s) ∧
      s.live 0 = true ∧ s.currentWindowByEntity 0 = some 0 ∧ s.windows 0 = none := by
    refine ⟨_, rfl, ?_⟩
    exact ⟨rfl, rfl, rfl⟩
  obtain ⟨s, hrun, hlive, hcurrent, hclosed⟩ := hrun
  have hreaches := Machine.Reaches.start.run (.of_forall (fun _ _ _ => trivial) _) hrun
  exact (h s hreaches).current 0 0 hlive hcurrent hclosed

end State

end Windows

end Gpui
