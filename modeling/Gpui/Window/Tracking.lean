import Mathlib

/-! # The windows of an entity: the model

    The app keeps, for each window, the entities that its last frame accessed, and for each
    entity the windows to invalidate when it is notified. -/

namespace Gpui

/-- The part of a window that `notify` reaches. -/
structure WindowInvalidator (E : Type) where
  dirty : Bool
  dirtyViews : List E
  /-- The window is being drawn. -/
  drawing : Bool

namespace WindowInvalidator

variable {E : Type} [DecidableEq E]

def new : WindowInvalidator E where
  dirty := true
  dirtyViews := []
  drawing := false

end WindowInvalidator

structure Tracking (W E : Type) where
  trackedEntities : W → Finset E
  windowInvalidatorsByEntity : E → List W
  invalidators : W → WindowInvalidator E
  pendingNotifications : List E
  /-- The emitters of the pending notifications. -/
  pendingEffects : List E

namespace Tracking

variable {W E : Type} [DecidableEq W] [DecidableEq E]

def new : Tracking W E where
  trackedEntities := fun _ => ∅
  windowInvalidatorsByEntity := fun _ => []
  invalidators := fun _ => .new
  pendingNotifications := []
  pendingEffects := []

/-- `record_entities_accessed`. -/
def recordEntitiesAccessed (tracking : Tracking W E) (window : W) (entities : Finset E) :
    Tracking W E :=
  { tracking with
    windowInvalidatorsByEntity := fun entity =>
      let windows := tracking.windowInvalidatorsByEntity entity
      let windows :=
        if entity ∈ tracking.trackedEntities window then windows.filter (· ≠ window) else windows
      if entity ∈ entities then windows.insert window else windows
    trackedEntities := Function.update tracking.trackedEntities window entities }

def setInvalidator (tracking : Tracking W E) (window : W) (inner : WindowInvalidator E) :
    Tracking W E :=
  { tracking with invalidators := Function.update tracking.invalidators window inner }

/-- `push_effect`, for `Effect::Notify`: an entity is queued once. -/
def pushEffect (tracking : Tracking W E) (emitter : E) : Tracking W E :=
  if emitter ∈ tracking.pendingNotifications then tracking
  else
    { tracking with
      pendingNotifications := tracking.pendingNotifications ++ [emitter]
      pendingEffects := tracking.pendingEffects ++ [emitter] }

/-- `WindowInvalidator::invalidate_view`. -/
def invalidateView (entity : E) (tracking : Tracking W E) (window : W) : Tracking W E :=
  let inner := tracking.invalidators window
  let inner := { inner with dirtyViews := inner.dirtyViews.insert entity }
  if inner.drawing then tracking.setInvalidator window inner
  else (tracking.setInvalidator window { inner with dirty := true }).pushEffect entity

/-- `notify`: the windows that show the entity are invalidated. -/
def notify (tracking : Tracking W E) (entity : E) : Tracking W E :=
  let live := (tracking.windowInvalidatorsByEntity entity).filter
    (fun window => entity ∈ tracking.trackedEntities window)
  if live.isEmpty then tracking.pushEffect entity
  else live.foldl (invalidateView entity) tracking

/-- A draw of a window starts. -/
def startDraw (tracking : Tracking W E) (window : W) : Tracking W E :=
  tracking.setInvalidator window ⟨false, [], true⟩

/-- A draw of a window ends, in which entities were accessed. -/
def endDraw (tracking : Tracking W E) (window : W) (entities : Finset E) : Tracking W E :=
  (tracking.recordEntitiesAccessed window entities).setInvalidator window
    { tracking.invalidators window with drawing := false }

/-- A draw of a window, during which entities are notified. -/
def drawn (t : Tracking W E) (window : W) (notified : List E) (entities : Finset E) :
    Tracking W E :=
  (notified.foldl notify (t.startDraw window)).endDraw window entities

end Tracking

end Gpui

/-! # A notified entity invalidates the windows that track it -/

namespace Gpui

namespace Tracking

variable {W E : Type}

/-- What notifications leave alone: who tracks what, and which windows are drawn.  A window
    that is dirty stays so. -/
structure Notified (tracking tracking' : Tracking W E) : Prop where
  tracked : tracking'.trackedEntities = tracking.trackedEntities
  windows : tracking'.windowInvalidatorsByEntity = tracking.windowInvalidatorsByEntity
  drawing : ∀ window, (tracking'.invalidators window).drawing = (tracking.invalidators window).drawing
  dirty : ∀ window, (tracking.invalidators window).dirty = true →
    (tracking'.invalidators window).dirty = true

theorem Notified.refl (tracking : Tracking W E) : Notified tracking tracking :=
  ⟨rfl, rfl, fun _ => rfl, fun _ h => h⟩

variable {t : Tracking W E} {window : W}

theorem Notified.trans {t' t'' : Tracking W E} (h : Notified t t') (h' : Notified t' t'') :
    Notified t t'' where
  tracked := h'.tracked.trans h.tracked
  windows := h'.windows.trans h.windows
  drawing := fun window => (h'.drawing window).trans (h.drawing window)
  dirty := fun window hdirty => h'.dirty window (h.dirty window hdirty)

variable [DecidableEq W]

/-- Only the invalidator of a window changes. -/
theorem Notified.setInvalidator {inner : WindowInvalidator E}
    (hdrawing : inner.drawing = (t.invalidators window).drawing)
    (hdirty : (t.invalidators window).dirty = true → inner.dirty = true) :
    Notified t (t.setInvalidator window inner) where
  tracked := rfl
  windows := rfl
  drawing := by
    intro other
    show (Function.update t.invalidators window inner other).drawing = _
    by_cases heq : other = window
    · rw [heq, Function.update_self, hdrawing]
    · rw [Function.update_of_ne heq]
  dirty := by
    intro other hother
    show (Function.update t.invalidators window inner other).dirty = true
    by_cases heq : other = window
    · rw [heq, Function.update_self]
      exact hdirty (heq ▸ hother)
    · rw [Function.update_of_ne heq]
      exact hother

variable [DecidableEq E]

section

omit [DecidableEq W]

theorem notified_pushEffect (t : Tracking W E) (emitter : E) : Notified t (t.pushEffect emitter) := by
  unfold pushEffect
  split
  · exact .refl t
  · exact ⟨rfl, rfl, fun _ => rfl, fun _ h => h⟩

theorem invalidators_pushEffect (t : Tracking W E) (emitter : E) :
    (t.pushEffect emitter).invalidators = t.invalidators := by
  unfold pushEffect
  split
  · rfl
  · rfl

end

theorem notified_invalidateView (entity : E) (t : Tracking W E) (window : W) :
    Notified t (invalidateView entity t window) := by
  unfold invalidateView
  dsimp only
  split
  · exact Notified.setInvalidator rfl (fun h => h)
  · refine .trans ?_ (notified_pushEffect _ entity)
    exact Notified.setInvalidator rfl (fun _ => rfl)

theorem notified_foldl (entity : E) (live : List W) (t : Tracking W E) :
    Notified t (live.foldl (invalidateView entity) t) := by
  induction live generalizing t with
  | nil => exact .refl t
  | cons window live ih => exact (notified_invalidateView entity t window).trans (ih _)

theorem notified_notify (t : Tracking W E) (entity : E) : Notified t (t.notify entity) := by
  unfold notify
  dsimp only
  split
  · exact notified_pushEffect t entity
  · exact notified_foldl entity _ t

theorem notified_foldl_notify (entities : List E) (t : Tracking W E) :
    Notified t (entities.foldl notify t) := by
  induction entities generalizing t with
  | nil => exact .refl t
  | cons entity entities ih => exact (notified_notify t entity).trans (ih _)

/-- A window that is not being drawn is dirty after its invalidation. -/
theorem dirty_invalidateView (entity : E) (hdrawing : (t.invalidators window).drawing = false) :
    ((invalidateView entity t window).invalidators window).dirty = true := by
  unfold invalidateView
  rw [if_neg (by rw [hdrawing]; exact Bool.false_ne_true), invalidators_pushEffect]
  show (Function.update t.invalidators window _ window).dirty = true
  rw [Function.update_self]

theorem dirty_foldl (entity : E) {live : List W}
    (hmem : window ∈ live) (hdrawing : (t.invalidators window).drawing = false) :
    ((live.foldl (invalidateView entity) t).invalidators window).dirty = true := by
  induction live generalizing t with
  | nil => cases hmem
  | cons other live ih =>
    obtain rfl | hmem := List.mem_cons.1 hmem
    · exact (notified_foldl entity live _).dirty _ (dirty_invalidateView entity hdrawing)
    · apply ih hmem
      rw [(notified_invalidateView entity t other).drawing window, hdrawing]

/-- A window that tracks an entity is invalidated with it. -/
theorem dirty_notify {entity : E} (htracked : entity ∈ t.trackedEntities window)
    (hwindow : window ∈ t.windowInvalidatorsByEntity entity)
    (hdrawing : (t.invalidators window).drawing = false) :
    ((t.notify entity).invalidators window).dirty = true := by
  have hlive : window ∈ (t.windowInvalidatorsByEntity entity).filter
      (fun window => entity ∈ t.trackedEntities window) :=
    List.mem_filter.2 ⟨hwindow, by simpa using htracked⟩
  unfold notify
  rw [if_neg]
  · exact dirty_foldl entity hlive hdrawing
  · rw [List.isEmpty_iff]
    exact List.ne_nil_of_mem hlive

/-! ### Between draws -/

/-- No window is being drawn, and the two indices agree. -/
structure Idle (t : Tracking W E) : Prop where
  drawing : ∀ window, (t.invalidators window).drawing = false
  windows : ∀ window entity, entity ∈ t.trackedEntities window →
    window ∈ t.windowInvalidatorsByEntity entity

omit [DecidableEq W] [DecidableEq E] in
theorem idle_new : (new : Tracking W E).Idle where
  drawing := fun _ => rfl
  windows := by
    intro window entity hmem
    simp [new] at hmem

theorem Idle.notify (h : t.Idle) (entity : E) : (t.notify entity).Idle := by
  have hnotified := notified_notify t entity
  refine ⟨?_, ?_⟩
  · intro window
    rw [hnotified.drawing, h.drawing]
  · rw [hnotified.tracked, hnotified.windows]
    exact h.windows

theorem Idle.dirty (h : t.Idle) {entity : E} (htracked : entity ∈ t.trackedEntities window) :
    ((t.notify entity).invalidators window).dirty = true :=
  dirty_notify htracked (h.windows window entity htracked) (h.drawing window)

theorem tracked_drawn (t : Tracking W E) (window : W) (notified : List E) (entities : Finset E) :
    (t.drawn window notified entities).trackedEntities =
      Function.update t.trackedEntities window entities := by
  have hnotified := notified_foldl_notify notified (t.startDraw window)
  show Function.update (notified.foldl Tracking.notify (t.startDraw window)).trackedEntities
    window entities = _
  rw [hnotified.tracked]
  rfl

theorem Idle.drawn (h : t.Idle) (window : W) (notified : List E)
    (entities : Finset E) : (t.drawn window notified entities).Idle := by
  have hnotified := notified_foldl_notify notified (t.startDraw window)
  refine ⟨?_, ?_⟩
  · intro other
    show (Function.update (notified.foldl Tracking.notify (t.startDraw window)).invalidators
      window _ other).drawing = false
    by_cases heq : other = window
    · rw [heq, Function.update_self]
    · rw [Function.update_of_ne heq, hnotified.drawing]
      show (Function.update t.invalidators window _ other).drawing = false
      rw [Function.update_of_ne heq, h.drawing]
  · intro other entity hmem
    rw [tracked_drawn] at hmem
    have hrecorded : (t.drawn window notified entities).windowInvalidatorsByEntity entity =
        ((notified.foldl Tracking.notify (t.startDraw window)).recordEntitiesAccessed window
          entities).windowInvalidatorsByEntity entity := rfl
    rw [hrecorded]
    unfold recordEntitiesAccessed
    dsimp only
    rw [hnotified.tracked, hnotified.windows]
    by_cases heq : other = window
    · rw [heq, Function.update_self] at hmem
      rw [if_pos hmem, heq]
      exact List.mem_insert_self
    · rw [Function.update_of_ne heq] at hmem
      have hwas : other ∈ t.windowInvalidatorsByEntity entity := h.windows other entity hmem
      have hkept : other ∈ (if entity ∈ t.trackedEntities window
          then (t.windowInvalidatorsByEntity entity).filter (· ≠ window)
          else t.windowInvalidatorsByEntity entity) := by
        split
        · exact List.mem_filter.2 ⟨hwas, by simpa using heq⟩
        · exact hwas
      split
      · exact List.mem_insert_of_mem hkept
      · exact hkept

end Tracking

end Gpui
