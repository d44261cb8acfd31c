import Gpui.Lib.Machine
import Gpui.Window.Tracking

/-! # The two indices of the windows and their entities agree

    `tracked_entities` has the entities of each window and `window_invalidators_by_entity` the
    windows of each entity.  Four operations change them, each only in part: a released
    entity loses its windows and stays tracked, and a notification takes the windows of an
    entity out of the map for a while.  The second index has never too much, and it lacks only
    the windows of released entities. -/

namespace Gpui

namespace WindowInvalidator

variable {E : Type} [DecidableEq E]

/-- `invalidate_view`, for the window itself. -/
def invalidated (inner : WindowInvalidator E) (entity : E) : WindowInvalidator E where
  dirty := inner.dirty || !inner.drawing
  dirtyViews := inner.dirtyViews.insert entity
  drawing := inner.drawing

theorem invalidated_twice (inner : WindowInvalidator E) (entity : E) :
    (inner.invalidated entity).invalidated entity = inner.invalidated entity := by
  unfold invalidated
  simp

end WindowInvalidator

namespace Tracking

variable {W E : Type} [DecidableEq W] [DecidableEq E]

/-- `release_dropped_entities`, for one entity. -/
def releaseEntity (tracking : Tracking W E) (entity : E) : Tracking W E :=
  { tracking with
    windowInvalidatorsByEntity := Function.update tracking.windowInvalidatorsByEntity entity [] }

/-- A window is closed at the end of its update. -/
def closeWindow (tracking : Tracking W E) (window : W) : Tracking W E :=
  { tracking with
    trackedEntities := Function.update tracking.trackedEntities window ∅
    windowInvalidatorsByEntity := fun entity =>
      if entity ∈ tracking.trackedEntities window then
        (tracking.windowInvalidatorsByEntity entity).filter (· ≠ window)
      else tracking.windowInvalidatorsByEntity entity }

/-- The part of `flush_effects` for `Effect::Notify`, without the observers it calls. -/
def applyNotifyEffect (tracking : Tracking W E) : Tracking W E :=
  match tracking.pendingEffects with
  | [] => tracking
  | emitter :: pendingEffects =>
      { tracking with
        pendingNotifications := tracking.pendingNotifications.filter (· ≠ emitter)
        pendingEffects := pendingEffects }

/-! ### Notifications -/

theorem invalidators_invalidateView (entity : E) (t : Tracking W E) (window other : W) :
    (invalidateView entity t window).invalidators other =
      if other = window then (t.invalidators other).invalidated entity
      else t.invalidators other := by
  unfold invalidateView
  dsimp only
  by_cases heq : other = window
  · subst heq
    split
    · rename_i hdrawing
      show Function.update t.invalidators other _ other = _
      simp [WindowInvalidator.invalidated, hdrawing]
    · rename_i hdrawing
      rw [invalidators_pushEffect]
      show Function.update t.invalidators other _ other = _
      simp [WindowInvalidator.invalidated, hdrawing]
  · rw [if_neg heq]
    split
    · exact Function.update_of_ne heq ..
    · rw [invalidators_pushEffect]
      exact Function.update_of_ne heq ..

theorem invalidators_foldl (entity : E) (live : List W) (t : Tracking W E) (other : W) :
    (live.foldl (invalidateView entity) t).invalidators other =
      if other ∈ live then (t.invalidators other).invalidated entity
      else t.invalidators other := by
  induction live generalizing t with
  | nil => simp
  | cons window live ih =>
    rw [List.foldl_cons, ih, invalidators_invalidateView]
    by_cases heq : other = window
    · -- a window that is invalidated again stays as it is
      subst heq
      simp [WindowInvalidator.invalidated_twice]
    · simp [heq]

/-- What is queued. -/
def queue (t : Tracking W E) : List E × List E := (t.pendingNotifications, t.pendingEffects)

section

omit [DecidableEq W]

theorem queue_pushEffect (t : Tracking W E) (emitter : E) :
    (t.pushEffect emitter).queue = if emitter ∈ t.queue.1 then t.queue
      else (t.queue.1 ++ [emitter], t.queue.2 ++ [emitter]) := by
  unfold pushEffect queue
  split
  · rfl
  · rfl

theorem pushEffect_twice (t : Tracking W E) (emitter : E) :
    ((t.pushEffect emitter).pushEffect emitter).queue = (t.pushEffect emitter).queue := by
  have hmem : emitter ∈ (t.pushEffect emitter).queue.1 := by
    rw [queue_pushEffect]
    split
    · assumption
    · simp
  rw [queue_pushEffect, if_pos hmem]

end

theorem queue_invalidateView (entity : E) (t : Tracking W E) (window : W) :
    (invalidateView entity t window).queue =
      if (t.invalidators window).drawing then t.queue else (t.pushEffect entity).queue := by
  unfold invalidateView
  dsimp only
  split
  · rfl
  · rw [queue_pushEffect, queue_pushEffect]
    rfl

/-- Windows queue an entity, however many they are, if one of them is not being drawn. -/
theorem queue_foldl (entity : E) (live : List W) (t : Tracking W E) :
    (live.foldl (invalidateView entity) t).queue =
      if ∀ window ∈ live, (t.invalidators window).drawing = true then t.queue
      else (t.pushEffect entity).queue := by
  induction live generalizing t with
  | nil => simp
  | cons window live ih =>
    have hqueue := queue_invalidateView entity t window
    simp only [List.foldl_cons, ih, List.forall_mem_cons,
      (notified_invalidateView entity t window).drawing]
    cases hdrawing : (t.invalidators window).drawing with
    | true =>
      rw [hdrawing, if_pos rfl] at hqueue
      rw [queue_pushEffect, hqueue, ← queue_pushEffect]
      simp
    | false =>
      rw [hdrawing, if_neg Bool.false_ne_true] at hqueue
      rw [queue_pushEffect, hqueue, ← queue_pushEffect, pushEffect_twice]
      simp

/-- What a notification does: it invalidates exactly some windows.  Only where there are none
    it queues the entity itself; else a window that is not being drawn queues it with its
    invalidation. -/
structure Notifies (t t' : Tracking W E) (entity : E) (windows : W → Prop) : Prop where
  invalidated : ∀ window, windows window →
    t'.invalidators window = (t.invalidators window).invalidated entity
  others : ∀ window, ¬ windows window → t'.invalidators window = t.invalidators window
  drawn : (∃ window, windows window) →
    (∀ window, windows window → (t.invalidators window).drawing = true) → t'.queue = t.queue
  undrawn : ∀ window, windows window → (t.invalidators window).drawing = false →
    t'.queue = (t.pushEffect entity).queue
  queued : (¬ ∃ window, windows window) → t' = t.pushEffect entity

theorem notifies_notify (t : Tracking W E) (entity : E) {windows : W → Prop}
    (h : ∀ window, windows window ↔ window ∈ t.windowInvalidatorsByEntity entity ∧
      entity ∈ t.trackedEntities window) : Notifies t (t.notify entity) entity windows := by
  have hlive : ∀ window, windows window ↔
      window ∈ (t.windowInvalidatorsByEntity entity).filter
        (fun window => entity ∈ t.trackedEntities window) := by
    intro window
    rw [h, List.mem_filter, decide_eq_true_eq]
  have hempty : (∃ window, windows window) ↔
      ¬ ((t.windowInvalidatorsByEntity entity).filter
        (fun window => entity ∈ t.trackedEntities window)).isEmpty = true := by
    simp only [hlive, List.isEmpty_iff]
    exact ⟨fun ⟨_, hmem⟩ => List.ne_nil_of_mem hmem, List.exists_mem_of_ne_nil _⟩
  unfold notify
  dsimp only
  refine ⟨?_, ?_, ?_, ?_, ?_⟩
  · intro window hwindow
    rw [if_neg (hempty.1 ⟨window, hwindow⟩), invalidators_foldl, if_pos ((hlive window).1 hwindow)]
  · intro window hwindow
    split
    · rw [invalidators_pushEffect]
    · rw [invalidators_foldl, if_neg (mt (hlive window).2 hwindow)]
  · intro hsome hdrawing
    rw [if_neg (hempty.1 hsome), queue_foldl,
      if_pos fun window hmem => hdrawing window ((hlive window).2 hmem)]
  · intro window hwindow hdrawing
    rw [if_neg (hempty.1 ⟨window, hwindow⟩), queue_foldl, if_neg]
    intro hall
    rw [hall window ((hlive window).1 hwindow)] at hdrawing
    cases hdrawing
  · intro hnone
    rw [if_pos (not_not.1 (mt hempty.2 hnone))]

/-! ### Runs -/

/-- The indices of the app, with the windows that are open, the entities that are released
    and what each window accessed in its last recorded frame. -/
structure Index (W E : Type) where
  tracking : Tracking W E
  opened : W → Bool
  /-- The windows that are or were open. -/
  used : W → Bool
  released : E → Bool
  lastFrame : W → Finset E

namespace Index

inductive Action (W E : Type) where
  | openWindow (window : W)
  /-- At the end of a draw. -/
  | recordEntitiesAccessed (window : W) (entities : Finset E)
  | notify (entity : E)
  | applyNotifyEffect
  | releaseEntity (entity : E)
  | closeWindow (window : W)
  /-- A draw starts or ends, or the window itself is refreshed. -/
  | setInvalidator (window : W) (inner : WindowInvalidator E)

def new : Index W E where
  tracking := .new
  opened := fun _ => false
  used := fun _ => false
  released := fun _ => false
  lastFrame := fun _ => ∅

/-- One step.  The id of a window is not used again, and only an open window is drawn or
    closed. -/
def step (s : Index W E) : Action W E → Option (Except Empty (Index W E))
  | .openWindow window =>
      if s.used window then none
      else
        some (.ok { s with
          opened := Function.update s.opened window true
          used := Function.update s.used window true })
  | .recordEntitiesAccessed window entities =>
      if s.opened window then
        some (.ok { s with
          tracking := s.tracking.recordEntitiesAccessed window entities
          lastFrame := Function.update s.lastFrame window entities })
      else none
  | .notify entity => some (.ok { s with tracking := s.tracking.notify entity })
  | .applyNotifyEffect => some (.ok { s with tracking := s.tracking.applyNotifyEffect })
  | .releaseEntity entity =>
      some (.ok { s with
        tracking := s.tracking.releaseEntity entity
        released := Function.update s.released entity true })
  | .closeWindow window =>
      if s.opened window then
        some (.ok { s with
          tracking := s.tracking.closeWindow window
          opened := Function.update s.opened window false })
      else none
  | .setInvalidator window inner =>
      some (.ok { s with tracking := s.tracking.setInvalidator window inner })

def machine (W E : Type) [DecidableEq W] [DecidableEq E] :
    Machine Empty (Index W E) (Action W E) where
  start := new
  step := step

/-- The two indices agree, but for released entities. -/
structure Indexed (s : Index W E) : Prop where
  only : ∀ window entity, window ∈ s.tracking.windowInvalidatorsByEntity entity →
    entity ∈ s.tracking.trackedEntities window
  all : ∀ window entity, entity ∈ s.tracking.trackedEntities window →
    s.released entity = false → window ∈ s.tracking.windowInvalidatorsByEntity entity

/-- What is tracked is what the open windows accessed last. -/
structure Inv (s : Index W E) : Prop extends s.Indexed where
  frames : ∀ window, s.opened window = true →
    s.tracking.trackedEntities window = s.lastFrame window
  closed : ∀ window, s.opened window = false → s.tracking.trackedEntities window = ∅
  fresh : ∀ window, s.used window = false →
    s.opened window = false ∧ s.lastFrame window = ∅

variable {s : Index W E}

section

omit [DecidableEq W] [DecidableEq E]

/-- A step that leaves the indices and what is known of windows and entities alone. -/
theorem Inv.same {s' : Index W E} (h : s.Inv)
    (htracked : s'.tracking.trackedEntities = s.tracking.trackedEntities)
    (hwindows : s'.tracking.windowInvalidatorsByEntity = s.tracking.windowInvalidatorsByEntity)
    (hopened : s'.opened = s.opened) (hused : s'.used = s.used)
    (hreleased : s'.released = s.released) (hframe : s'.lastFrame = s.lastFrame) : s'.Inv where
  only := by
    rw [htracked, hwindows]
    exact h.only
  all := by
    rw [htracked, hwindows, hreleased]
    exact h.all
  frames := by
    rw [htracked, hopened, hframe]
    exact h.frames
  closed := by
    rw [htracked, hopened]
    exact h.closed
  fresh := by
    rw [hopened, hused, hframe]
    exact h.fresh

/-- Where another value was written the function has not this one. -/
theorem update_eq_iff_of_ne {α β : Type} [DecidableEq α] {f : α → β} {a b : α} {v w : β}
    (hne : v ≠ w) : Function.update f a v b = w ↔ b ≠ a ∧ f b = w := by
  by_cases heq : b = a
  · rw [heq, Function.update_self]
    exact iff_of_false hne (fun h => h.1 rfl)
  · rw [Function.update_of_ne heq, and_iff_right heq]

end

omit [DecidableEq E] in
theorem Inv.openWindow (h : s.Inv) {window : W} (hfresh : s.used window = false) :
    Inv { s with
      opened := Function.update s.opened window true
      used := Function.update s.used window true } where
  only := h.only
  all := h.all
  frames := by
    intro other hother
    by_cases heq : other = window
    · -- nothing is tracked for a window that was not open before
      obtain ⟨hclosed, hframe⟩ := h.fresh window hfresh
      show s.tracking.trackedEntities other = s.lastFrame other
      rw [heq, h.closed window hclosed, hframe]
    · change Function.update s.opened window true other = true at hother
      rw [Function.update_of_ne heq] at hother
      exact h.frames other hother
  closed := by
    intro other hother
    obtain ⟨_, hclosed⟩ := (update_eq_iff_of_ne Bool.false_ne_true.symm).1 hother
    exact h.closed other hclosed
  fresh := by
    intro other hother
    obtain ⟨heq, hunused⟩ := (update_eq_iff_of_ne Bool.false_ne_true.symm).1 hother
    show Function.update s.opened window true other = false ∧ _
    rw [Function.update_of_ne heq]
    exact h.fresh other hunused

theorem mem_recorded (t : Tracking W E) (window other : W) (entities : Finset E) (entity : E) :
    other ∈ (t.recordEntitiesAccessed window entities).windowInvalidatorsByEntity entity ↔
      (other = window ∧ entity ∈ entities) ∨
        (other ∈ t.windowInvalidatorsByEntity entity ∧
          ¬ (other = window ∧ entity ∈ t.trackedEntities window)) := by
  unfold recordEntitiesAccessed
  dsimp only
  have hkept : other ∈ (if entity ∈ t.trackedEntities window
      then (t.windowInvalidatorsByEntity entity).filter (· ≠ window)
      else t.windowInvalidatorsByEntity entity) ↔
      other ∈ t.windowInvalidatorsByEntity entity ∧
        ¬ (other = window ∧ entity ∈ t.trackedEntities window) := by
    split
    · rename_i htracked
      simp [htracked]
    · rename_i htracked
      simp [htracked]
  split
  · rename_i haccessed
    rw [List.mem_insert_iff, hkept]
    simp [haccessed]
  · rename_i haccessed
    rw [hkept]
    simp [haccessed]

theorem Inv.record (h : s.Inv) {window : W} (hopened : s.opened window = true)
    (entities : Finset E) :
    Inv { s with
      tracking := s.tracking.recordEntitiesAccessed window entities
      lastFrame := Function.update s.lastFrame window entities } where
  only := by
    intro other entity hmem
    show entity ∈ Function.update s.tracking.trackedEntities window entities other
    rcases (mem_recorded _ _ _ _ _).1 hmem with ⟨rfl, haccessed⟩ | ⟨hwas, hnot⟩
    · rw [Function.update_self]
      exact haccessed
    · -- the window itself was taken out of the entities of its last frame
      have htracked := h.only other entity hwas
      by_cases heq : other = window
      · exact absurd ⟨heq, heq ▸ htracked⟩ hnot
      · rw [Function.update_of_ne heq]
        exact htracked
  all := by
    intro other entity htracked hreleased
    change entity ∈ Function.update s.tracking.trackedEntities window entities other at htracked
    refine (mem_recorded _ _ _ _ _).2 ?_
    by_cases heq : other = window
    · rw [heq, Function.update_self] at htracked
      exact .inl ⟨heq, htracked⟩
    · rw [Function.update_of_ne heq] at htracked
      exact .inr ⟨h.all other entity htracked hreleased, fun hwindow => heq hwindow.1⟩
  frames := by
    intro other hother
    show Function.update s.tracking.trackedEntities window entities other =
      Function.update s.lastFrame window entities other
    by_cases heq : other = window
    · rw [heq, Function.update_self, Function.update_self]
    · rw [Function.update_of_ne heq, Function.update_of_ne heq]
      exact h.frames other hother
  closed := by
    intro other hother
    have heq : other ≠ window := by
      rintro rfl
      rw [show s.opened other = false from hother] at hopened
      cases hopened
    show Function.update s.tracking.trackedEntities window entities other = ∅
    rw [Function.update_of_ne heq]
    exact h.closed other hother
  fresh := by
    intro other hother
    have heq : other ≠ window := by
      rintro rfl
      rw [(h.fresh other hother).1] at hopened
      cases hopened
    show _ ∧ Function.update s.lastFrame window entities other = ∅
    rw [Function.update_of_ne heq]
    exact h.fresh other hother

omit [DecidableEq W] in
theorem Inv.release (h : s.Inv) (entity : E) :
    Inv { s with
      tracking := s.tracking.releaseEntity entity
      released := Function.update s.released entity true } where
  only := by
    intro window other hmem
    change window ∈ Function.update s.tracking.windowInvalidatorsByEntity entity [] other at hmem
    by_cases heq : other = entity
    · rw [heq, Function.update_self] at hmem
      cases hmem
    · rw [Function.update_of_ne heq] at hmem
      exact h.only window other hmem
  all := by
    intro window other htracked hreleased
    obtain ⟨heq, hreleased⟩ := (update_eq_iff_of_ne Bool.false_ne_true.symm).1 hreleased
    show window ∈ Function.update s.tracking.windowInvalidatorsByEntity entity [] other
    rw [Function.update_of_ne heq]
    exact h.all window other htracked hreleased
  frames := h.frames
  closed := h.closed
  fresh := h.fresh

theorem mem_closed (t : Tracking W E) (window other : W) (entity : E) :
    other ∈ (t.closeWindow window).windowInvalidatorsByEntity entity ↔
      other ∈ t.windowInvalidatorsByEntity entity ∧
        ¬ (other = window ∧ entity ∈ t.trackedEntities window) := by
  unfold closeWindow
  dsimp only
  split
  · rename_i htracked
    simp [htracked]
  · rename_i htracked
    simp [htracked]

theorem Inv.close (h : s.Inv) (window : W) :
    Inv { s with
      tracking := s.tracking.closeWindow window
      opened := Function.update s.opened window false } where
  only := by
    intro other entity hmem
    obtain ⟨hwas, hnot⟩ := (mem_closed _ _ _ _).1 hmem
    have htracked := h.only other entity hwas
    show entity ∈ Function.update s.tracking.trackedEntities window ∅ other
    by_cases heq : other = window
    · exact absurd ⟨heq, heq ▸ htracked⟩ hnot
    · rw [Function.update_of_ne heq]
      exact htracked
  all := by
    intro other entity htracked hreleased
    change entity ∈ Function.update s.tracking.trackedEntities window ∅ other at htracked
    by_cases heq : other = window
    · rw [heq, Function.update_self] at htracked
      simp at htracked
    · rw [Function.update_of_ne heq] at htracked
      exact (mem_closed _ _ _ _).2
        ⟨h.all other entity htracked hreleased, fun hwindow => heq hwindow.1⟩
  frames := by
    intro other hother
    obtain ⟨heq, hopened⟩ := (update_eq_iff_of_ne Bool.false_ne_true).1 hother
    show Function.update s.tracking.trackedEntities window ∅ other = _
    rw [Function.update_of_ne heq]
    exact h.frames other hopened
  closed := by
    intro other hother
    change Function.update s.opened window false other = false at hother
    show Function.update s.tracking.trackedEntities window ∅ other = ∅
    by_cases heq : other = window
    · rw [heq, Function.update_self]
    · rw [Function.update_of_ne heq] at hother ⊢
      exact h.closed other hother
  fresh := by
    intro other hother
    obtain ⟨hopened, hframe⟩ := h.fresh other hother
    refine ⟨?_, hframe⟩
    show Function.update s.opened window false other = false
    by_cases heq : other = window
    · rw [heq, Function.update_self]
    · rw [Function.update_of_ne heq, hopened]

theorem inv_inductive : (machine W E).Inductive (fun _ _ => True) Inv where
  start := by
    refine ⟨⟨?_, ?_⟩, fun _ _ => rfl, fun _ _ => rfl, fun _ _ => ⟨rfl, rfl⟩⟩
    · intro window entity hmem
      cases hmem
    · intro window entity hmem
      simp [machine, new, Tracking.new] at hmem
  step := by
    intro s a s' h _ hstep
    change s.step a = _ at hstep
    unfold Index.step at hstep
    cases a with
    | openWindow window =>
      simp only [Option.ite_none_left_eq_some, Option.some.injEq, Except.ok.injEq,
        Bool.not_eq_true] at hstep
      obtain ⟨hfresh, rfl⟩ := hstep
      exact h.openWindow hfresh
    | recordEntitiesAccessed window entities =>
      obtain ⟨hopened, rfl⟩ := Machine.guarded_ok_iff.1 hstep
      exact h.record hopened entities
    | notify entity =>
      cases hstep
      have hnotified := notified_notify s.tracking entity
      exact h.same hnotified.tracked hnotified.windows rfl rfl rfl rfl
    | applyNotifyEffect =>
      cases hstep
      have hrest : s.tracking.applyNotifyEffect.trackedEntities = s.tracking.trackedEntities ∧
          s.tracking.applyNotifyEffect.windowInvalidatorsByEntity =
            s.tracking.windowInvalidatorsByEntity := by
        unfold Tracking.applyNotifyEffect
        split
        · exact ⟨rfl, rfl⟩
        · exact ⟨rfl, rfl⟩
      exact h.same hrest.1 hrest.2 rfl rfl rfl rfl
    | releaseEntity entity =>
      cases hstep
      exact h.release entity
    | closeWindow window =>
      obtain ⟨_, rfl⟩ := Machine.guarded_ok_iff.1 hstep
      exact h.close window
    | setInvalidator window inner =>
      cases hstep
      exact h.same rfl rfl rfl rfl rfl rfl

omit [DecidableEq W] [DecidableEq E] in
/-- **The windows of an entity** that was not released are the open windows whose last
    recorded frame accessed it. -/
theorem Inv.windows_iff (h : s.Inv) {entity : E}
    (hreleased : s.released entity = false) (window : W) :
    (s.opened window = true ∧ entity ∈ s.lastFrame window) ↔
      window ∈ s.tracking.windowInvalidatorsByEntity entity ∧
        entity ∈ s.tracking.trackedEntities window := by
  constructor
  · rintro ⟨hopened, hframe⟩
    rw [← h.frames window hopened] at hframe
    exact ⟨h.all window entity hframe hreleased, hframe⟩
  · rintro ⟨_, htracked⟩
    cases hopened : s.opened window with
    | false =>
      rw [h.closed window hopened] at htracked
      simp at htracked
    | true =>
      rw [h.frames window hopened] at htracked
      exact ⟨rfl, htracked⟩

/-- In every reachable state the two indices agree, but for released entities, and a
    notification invalidates exactly the open windows whose last recorded frame accessed the
    entity, and queues it without an invalidation only where there are none. -/
theorem tracking_indexed {s : Index W E} (h : (machine W E).Reaches (fun _ _ => True) s) :
    s.Indexed ∧ ∀ entity, s.released entity = false →
      Notifies s.tracking (s.tracking.notify entity) entity
        (fun window => s.opened window = true ∧ entity ∈ s.lastFrame window) := by
  have hinv := inv_inductive.holds h
  refine ⟨hinv.toIndexed, ?_⟩
  intro entity hreleased
  exact notifies_notify s.tracking entity (hinv.windows_iff hreleased)

/-- A window that shows two entities, one of which is released. -/
theorem tracking_indexed_released :
    ∃ s : Index Nat Nat, (machine Nat Nat).Reaches (fun _ _ => True) s ∧
      s.Indexed ∧ s.released 1 = true ∧ 1 ∈ s.tracking.trackedEntities 0 ∧
      ((s.tracking.notify 2).invalidators 0).dirtyViews = [2] ∧
      (s.tracking.notify 2).queue = ([1, 2], [1, 2]) ∧
      (s.tracking.notify 3).queue = ([1, 3], [1, 3]) := by
  have hrun : ∃ s, (machine Nat Nat).run new
      [.openWindow 0, .recordEntitiesAccessed 0 {1, 2}, .notify 1, .setInvalidator 0 .new,
        .releaseEntity 1] = some (.ok s) ∧ s.released 1 = true ∧ s.released 2 = false ∧
      1 ∈ s.tracking.trackedEntities 0 ∧ s.opened 0 = true ∧ s.released 3 = false ∧
      s.tracking.invalidators 0 = .new ∧ s.tracking.queue = ([1], [1]) ∧
      ∀ window, s.lastFrame window = if window = 0 then {1, 2} else ∅ :=
    ⟨_, rfl, rfl, rfl, by decide, rfl, rfl, rfl, rfl, by
      intro window
      exact Function.update_apply ..⟩
  obtain ⟨s, hrun, hreleased, hlive, htracked, hopened, hlive', hwindow, hqueue, hframe⟩ := hrun
  have hreaches := Machine.Reaches.start.run (.of_forall (fun _ _ _ => trivial) _) hrun
  obtain ⟨hindexed, hnotifies⟩ := tracking_indexed hreaches
  have hshown : 2 ∈ s.lastFrame 0 := by rw [hframe]; decide
  refine ⟨s, hreaches, hindexed, hreleased, htracked, ?_, ?_, ?_⟩
  · rw [(hnotifies 2 hlive).invalidated 0 ⟨hopened, hshown⟩, hwindow]
    rfl
  · -- the window is not being drawn, and queues the entity itself
    rw [(hnotifies 2 hlive).undrawn 0 ⟨hopened, hshown⟩ (by rw [hwindow]; rfl), queue_pushEffect,
      hqueue]
    rfl
  · -- no window shows the entity
    rw [(hnotifies 3 hlive').queued, queue_pushEffect, hqueue]
    · rfl
    · rintro ⟨window, -, hmem⟩
      rw [hframe] at hmem
      split at hmem
      · simp at hmem
      · simp at hmem

end Index

end Tracking

end Gpui
