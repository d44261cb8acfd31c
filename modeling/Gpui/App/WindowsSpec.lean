import Gpui.App.Windows
import Gpui.App.SubscriptionSpec
import Gpui.Lib.Exec

/-! # Windows off the stack

    A window is out of the map exactly while a call has it, and effects are applied below
    no such call: the flush is entered by the outermost update, when it is the last call
    that is running. -/

open Exec

namespace Gpui

open List

namespace Windows

variable {T C : Type}

/-! ### Section 1: The calls that are running -/

/-- The windows that calls have, the innermost first. -/
def held : List (Frame T C) → List Nat
  | []                        => []
  | .window id _ :: stack     => id :: held stack
  | .opening id _ _ :: stack  => id :: held stack
  | .update :: stack          => held stack
  | .finishUpdate :: stack    => held stack
  | .flush :: stack           => held stack
  | .handler :: stack         => held stack
  | .announce _ _ _ _ _ _ :: stack => held stack

/-- The windows on the update stack: a window that is drawn while it is opened is not. -/
def updating : List (Frame T C) → List Nat
  | []                            => []
  | .window id _ :: stack         => id :: updating stack
  | .opening id _ false :: stack  => id :: updating stack
  | .opening _ _ true :: stack    => updating stack
  | .update :: stack              => updating stack
  | .finishUpdate :: stack        => updating stack
  | .flush :: stack               => updating stack
  | .handler :: stack             => updating stack
  | .announce _ _ _ _ _ _ :: stack => updating stack

/-- The number of updates that are running. -/
def updates : List (Frame T C) → Nat
  | []                        => 0
  | .update :: stack          => updates stack + 1
  | .finishUpdate :: stack    => updates stack + 1
  | .window _ _ :: stack      => updates stack
  | .opening _ _ _ :: stack   => updates stack
  | .flush :: stack           => updates stack
  | .handler :: stack         => updates stack
  | .announce _ _ _ _ _ _ :: stack => updates stack

/-- What each call is called by. -/
def Shape : List (Frame T C) → Prop
  | []                        => True
  | .update :: stack          => Shape stack
  | .finishUpdate :: stack    => stack = []
  | .window _ _ :: stack      => stack ≠ [] ∧ Shape stack
  | .opening _ _ _ :: stack   => stack ≠ [] ∧ Shape stack
  | .flush :: stack           => stack = [.finishUpdate]
  | .handler :: stack         => stack ≠ [] ∧ Shape stack
  | .announce _ _ _ _ _ _ :: stack => stack = [.flush, .finishUpdate]

/-- The counter and the flag agree with the calls. -/
structure Calls (stack : List (Frame T C)) (pendingUpdates : Nat) (flushing : Bool) : Prop where
  shape : Shape stack
  updates : pendingUpdates = updates stack
  flushing : flushing = true ↔ .finishUpdate ∈ stack

variable {stack : List (Frame T C)} {n nextWindow : Nat} {b : Bool} {windows : Nat → Option Slot}
variable {windowUpdateStack : List Nat} {called : Option (Nat × C)} {entity : Nat} {tid : T}

/-- The outermost call is an update. -/
theorem eq_nil_of_updates (h : Shape stack) (hzero : updates stack = 0) :
    stack = [] := by
  induction stack with
  | nil => rfl
  | cons frame stack ih =>
    cases frame with
    | update => cases hzero
    | finishUpdate => cases hzero
    | window id removed => exact absurd (ih h.2 hzero) h.1
    | opening id removed drawing => exact absurd (ih h.2 hzero) h.1
    | handler => exact absurd (ih h.2 hzero) h.1
    | flush =>
      have hstack : stack = [.finishUpdate] := h
      rw [hstack] at hzero
      cases hzero
    | announce entity tid window called remaining kept =>
      have hstack : stack = [.flush, .finishUpdate] := h
      rw [hstack] at hzero
      cases hzero

theorem Calls.update (h : Calls stack n b) :
    Calls (.update :: stack) (n + 1) b where
  shape := h.shape
  updates := congrArg (· + 1) h.updates
  flushing := by
    rw [h.flushing]
    simp

theorem Calls.window (h : Calls stack n b)
    (hne : stack ≠ []) (id : Nat) (removed : Bool) : Calls (.window id removed :: stack) n b where
  shape := ⟨hne, h.shape⟩
  updates := h.updates
  flushing := by
    rw [h.flushing]
    simp

theorem Calls.opening (h : Calls stack n b) (hne : stack ≠ []) (id : Nat) (removed drawing : Bool) :
    Calls (.opening id removed drawing :: stack) n b where
  shape := ⟨hne, h.shape⟩
  updates := h.updates
  flushing := by
    rw [h.flushing]
    simp

theorem Calls.handler (h : Calls stack n b) (hne : stack ≠ []) : Calls (.handler :: stack) n b where
  shape := ⟨hne, h.shape⟩
  updates := h.updates
  flushing := by
    rw [h.flushing]
    simp

/-- A window, a window that is opened or a handler that returns. -/
theorem Calls.pop {frame : Frame T C} (h : Calls (frame :: stack) n b)
    (hframe : (∃ id removed, frame = .window id removed) ∨
      (∃ id removed drawing, frame = .opening id removed drawing) ∨ frame = .handler) :
    stack ≠ [] ∧ Calls stack n b := by
  obtain ⟨hshape, hupdates, hflushing⟩ := h
  obtain ⟨id, removed, rfl⟩ | ⟨id, removed, drawing, rfl⟩ | rfl := hframe
  all_goals exact ⟨hshape.1, hshape.2, hupdates, by simpa using hflushing⟩

/-- The flush of an outermost update has no call but the update below it. -/
theorem Calls.flush
    (h : Calls (.flush :: stack) n b) : stack = [.finishUpdate] ∧ n = 1 ∧ b = true := by
  obtain ⟨hshape, hupdates, hflushing⟩ := h
  have hstack : stack = [.finishUpdate] := hshape
  refine ⟨hstack, ?_, ?_⟩
  · rw [hupdates, hstack]
    rfl
  · rw [hflushing, hstack]
    simp

theorem calls_flush : Calls ([.flush, .finishUpdate] : List (Frame T C)) 1 true where
  shape := rfl
  updates := rfl
  flushing := by simp

theorem calls_finishUpdate : Calls ([.finishUpdate] : List (Frame T C)) 1 true where
  shape := rfl
  updates := rfl
  flushing := by simp

theorem Calls.announce {window : Option Nat} {remaining kept : List (Nat × C)}
    (h : Calls (.announce entity tid window called remaining kept :: stack) n b) :
    stack = [.flush, .finishUpdate] ∧ n = 1 ∧ b = true := by
  obtain ⟨hshape, hupdates, hflushing⟩ := h
  have hstack : stack = [.flush, .finishUpdate] := hshape
  refine ⟨hstack, ?_, ?_⟩
  · rw [hupdates, hstack]
    rfl
  · rw [hflushing, hstack]
    simp

theorem calls_announce (entity : Nat) (tid : T) (window : Option Nat)
    (called : Option (Nat × C)) (remaining kept : List (Nat × C)) :
    Calls [.announce entity tid window called remaining kept, .flush, .finishUpdate] 1 true where
  shape := rfl
  updates := rfl
  flushing := by simp

/-! ### Section 2: The windows that are out of the map -/

structure Holding (stack : List (Frame T C)) (windows : Nat → Option Slot)
    (windowUpdateStack : List Nat) (nextWindow : Nat) : Prop where
  taken : ∀ id, windows id = some .taken ↔ id ∈ held stack
  nodup : (held stack).Nodup
  updateStack : windowUpdateStack = updating stack
  issued : ∀ id, windows id ≠ none → id < nextWindow

/-- The update stack has windows that calls have. -/
theorem updating_subset (stack : List (Frame T C)) : ∀ id ∈ updating stack, id ∈ held stack := by
  induction stack with
  | nil => exact fun _ h => h
  | cons frame stack ih =>
    intro id hid
    cases frame with
    | window other removed =>
      obtain rfl | hid := mem_cons.1 hid
      · exact mem_cons_self
      · exact mem_cons_of_mem _ (ih id hid)
    | opening other removed drawing =>
      cases drawing with
      | true => exact mem_cons_of_mem _ (ih id hid)
      | false =>
        obtain rfl | hid := mem_cons.1 hid
        · exact mem_cons_self
        · exact mem_cons_of_mem _ (ih id hid)
    | update => exact ih id hid
    | finishUpdate => exact ih id hid
    | flush => exact ih id hid
    | handler => exact ih id hid
    | announce entity tid window called remaining kept => exact ih id hid

section

variable (h : Holding stack windows windowUpdateStack nextWindow)
include h

variable {stack' : List (Frame T C)} {id : Nat}

/-- A call that has no window changes nothing. -/
theorem Holding.same (hheld : held stack' = held stack)
    (hupdating : updating stack' = updating stack) :
    Holding stack' windows windowUpdateStack nextWindow where
  taken := by
    intro id
    rw [hheld]
    exact h.taken id
  nodup := by
    rw [hheld]
    exact h.nodup
  updateStack := by
    rw [hupdating]
    exact h.updateStack
  issued := h.issued

/-- A window is taken that a call gets. -/
theorem Holding.taken_update (id other : Nat) :
    Function.update windows id (some .taken) other = some .taken ↔ other ∈ id :: held stack := by
  by_cases hother : other = id
  · rw [hother, Function.update_self]
    simp [held]
  · rw [Function.update_of_ne hother, h.taken]
    simp [held, hother]

/-- A window that is in the map is taken. -/
theorem Holding.take {slot : Bool} (hslot : windows id = some (.kept slot)) (removed : Bool) :
    Holding (.window id removed :: .update :: stack) (Function.update windows id (some .taken))
      (id :: windowUpdateStack) nextWindow where
  taken := h.taken_update id
  nodup := by
    refine nodup_cons.2 ⟨?_, h.nodup⟩
    intro hmem
    have htaken := (h.taken id).2 hmem
    rw [hslot] at htaken
    cases htaken
  updateStack := congrArg (id :: ·) h.updateStack
  issued := by
    intro other hother
    by_cases heq : other = id
    · apply h.issued
      rw [heq, hslot]
      exact Option.some_ne_none _
    · rw [Function.update_of_ne heq] at hother
      exact h.issued other hother

/-- A new window is taken. -/
theorem Holding.open :
    Holding (.opening nextWindow false false :: .update :: stack)
      (Function.update windows nextWindow (some .taken)) (nextWindow :: windowUpdateStack)
      (nextWindow + 1) where
  taken := h.taken_update nextWindow
  nodup := by
    refine nodup_cons.2 ⟨?_, h.nodup⟩
    intro hmem
    have hlt := h.issued nextWindow (by
      rw [(h.taken nextWindow).2 hmem]
      exact Option.some_ne_none _)
    exact Nat.lt_irrefl _ hlt
  updateStack := congrArg (nextWindow :: ·) h.updateStack
  issued := by
    intro other hother
    by_cases heq : other = nextWindow
    · omega
    · rw [Function.update_of_ne heq] at hother
      have hlt := h.issued other hother
      omega

/-- A call that has a window gives it back, or closes it. -/
theorem Holding.release (hheld : held stack = id :: held stack') {slot : Option Slot}
    (hslot : slot ≠ some .taken) (windowUpdateStack' : List Nat)
    (hupdating : windowUpdateStack' = updating stack') :
    Holding stack' (Function.update windows id slot) windowUpdateStack' nextWindow where
  taken := by
    intro other
    have hnodup := h.nodup
    rw [hheld, nodup_cons] at hnodup
    by_cases hother : other = id
    · rw [hother, Function.update_self]
      exact ⟨fun heq => absurd heq hslot, fun hmem => absurd hmem hnodup.1⟩
    · rw [Function.update_of_ne hother, h.taken, hheld, mem_cons]
      exact ⟨fun hmem => hmem.resolve_left hother, Or.inr⟩
  nodup := by
    have hnodup := h.nodup
    rw [hheld, nodup_cons] at hnodup
    exact hnodup.2
  updateStack := hupdating
  issued := by
    intro other hother
    by_cases heq : other = id
    · apply h.issued
      rw [heq, (h.taken id).2 (by rw [hheld]; exact mem_cons_self)]
      exact Option.some_ne_none _
    · rw [Function.update_of_ne heq] at hother
      exact h.issued other hother

end

/-! ### Section 3: Every step -/

namespace State

structure Inv (s : State T C) : Prop where
  calls : Calls s.stack s.pendingUpdates s.flushingEffects
  holding : Holding s.stack s.windows s.windowUpdateStack s.nextWindow

variable {s s' : State T C} {stack : List (Frame T C)} {id : Nat}

/-- While the flush is the innermost call, every window is in the map. -/
theorem Inv.off_stack (h : s.Inv) (hheld : held s.stack = []) (id : Nat) :
    s.windows id ≠ some .taken := by
  intro htaken
  have hmem := (h.holding.taken id).1 htaken
  rw [hheld] at hmem
  cases hmem

theorem mem_held_of_holds (h : stack.any (holds id) = true) :
    id ∈ held stack := by
  induction stack with
  | nil => cases h
  | cons frame stack ih =>
    rw [any_cons, Bool.or_eq_true] at h
    cases frame with
    | window other _ | opening other _ _ =>
      obtain h | h := h
      · have heq : other = id := by simpa [holds] using h
        rw [heq]
        exact mem_cons_self
      · exact mem_cons_of_mem _ (ih h)
    | _ => exact ih (h.resolve_left (by simp [holds]))

/-- A window that code has is open. -/
theorem Inv.holds_open (h : s.Inv) (hheld : s.stack.any (holds id) = true) :
    s.windows id ≠ none := by
  rw [(h.holding.taken id).2 (mem_held_of_holds hheld)]
  exact Option.some_ne_none _

theorem takeWindow_eq_some (h : s.takeWindow id = some s') :
    ∃ removed, s.windows id = some (.kept removed) ∧
      s' = { (s.startUpdate).setWindow id (some .taken) with
        windowUpdateStack := id :: s.windowUpdateStack
        stack := .window id removed :: .update :: s.stack } := by
  unfold takeWindow at h
  split at h
  · rename_i removed hslot
    exact ⟨removed, hslot, (Option.some.inj h).symm⟩
  · cases h
  · cases h

theorem Inv.startUpdate (h : s.Inv) : s.startUpdate.Inv where
  calls := h.calls.update
  holding := h.holding.same rfl rfl

theorem Inv.takeWindow (h : s.Inv) (htake : s.takeWindow id = some s') :
    s'.Inv := by
  obtain ⟨removed, hslot, rfl⟩ := takeWindow_eq_some htake
  exact ⟨h.calls.update.window (cons_ne_nil _ _) id removed, h.holding.take hslot removed⟩

theorem Inv.updateWindowId (h : s.Inv) (id : Nat) : (s.updateWindowId id).Inv := by
  unfold State.updateWindowId
  cases htake : s.takeWindow id with
  | none => exact h.startUpdate
  | some s' => exact h.takeWindow htake

theorem Inv.withWindow (h : s.Inv) (entity : Nat) : (s.withWindow entity).Inv := by
  unfold State.withWindow
  split
  · exact h
  · exact h.updateWindowId _

theorem Inv.openWindow (h : s.Inv) : s.openWindow.Inv where
  calls := h.calls.update.opening (cons_ne_nil _ _) _ _ _
  holding := h.holding.open

/-- Only the outermost update flushes, and it is the last call. -/
theorem Inv.finishUpdate (h : s.Inv)
    (hstack : s.stack = .update :: stack) : (s.finishUpdate stack).Inv := by
  have hcalls := h.calls
  rw [hstack] at hcalls
  obtain ⟨hshape, hupdates, hflushing⟩ := hcalls
  have hholding : Holding stack s.windows s.windowUpdateStack s.nextWindow :=
    h.holding.same (by rw [hstack]; rfl) (by rw [hstack]; rfl)
  have hcount : s.pendingUpdates = updates stack + 1 := hupdates
  unfold State.finishUpdate
  split
  · rename_i houtermost
    simp only [Bool.and_eq_true, Bool.not_eq_true', beq_iff_eq] at houtermost
    have hnil : stack = [] := eq_nil_of_updates hshape (by omega)
    subst hnil
    refine ⟨?_, hholding.same rfl rfl⟩
    show Calls [.flush, .finishUpdate] s.pendingUpdates true
    rw [houtermost.2]
    exact calls_flush
  · refine ⟨⟨hshape, ?_, ?_⟩, hholding⟩
    · show s.pendingUpdates - 1 = updates stack
      omega
    · show s.flushingEffects = true ↔ _
      rw [hflushing]
      simp

theorem Inv.trail (h : s.Inv) {removed : Bool} (hstack : s.stack = .window id removed :: stack)
    (htrail : s.trail id removed stack = .ok s') : s'.Inv := by
  have hcalls := h.calls
  rw [hstack] at hcalls
  obtain ⟨hne, hbelow⟩ := hcalls.pop (.inl ⟨id, removed, rfl⟩)
  have hheld : held s.stack = id :: held stack := by rw [hstack]; rfl
  have hupdating : s.windowUpdateStack.tail = updating stack := by
    rw [h.holding.updateStack, hstack]
    rfl
  unfold State.trail at htrail
  dsimp only at htrail
  split at htrail
  · cases htrail
    refine ⟨hbelow.handler hne, ?_⟩
    exact (h.holding.release hheld (by simp) _ hupdating).same rfl rfl
  · split at htrail
    · cases htrail
      exact ⟨hbelow, h.holding.release hheld (by simp) _ hupdating⟩
    · rename_i hgone
      -- the window is taken, so its slot is there
      have htaken := (h.holding.taken id).2 (by rw [hheld]; exact mem_cons_self)
      rw [htaken] at hgone
      cases hgone

theorem Inv.opened (h : s.Inv) {removed drawing : Bool}
    (hstack : s.stack = .opening id removed drawing :: stack)
    (hopened : s.opened id removed drawing stack = .ok s') : s'.Inv := by
  have hcalls := h.calls
  rw [hstack] at hcalls
  obtain ⟨hne, hbelow⟩ := hcalls.pop (.inr (.inl ⟨id, removed, drawing, rfl⟩))
  have hheld : held s.stack = id :: held stack := by rw [hstack]; rfl
  unfold State.opened at hopened
  cases drawing with
  | true =>
    simp only [if_true] at hopened
    split at hopened
    · cases hopened
    · cases hopened
      refine ⟨hbelow, h.holding.release hheld (by simp) _ ?_⟩
      show s.windowUpdateStack = updating stack
      rw [h.holding.updateStack, hstack]
      rfl
  | false =>
    cases hopened
    refine ⟨hbelow.opening hne id removed true, ?_⟩
    have hholding := h.holding
    refine ⟨?_, ?_, ?_, hholding.issued⟩
    · intro other
      rw [hholding.taken, hheld]
      rfl
    · have hnodup := hholding.nodup
      rw [hheld] at hnodup
      exact hnodup
    · show s.windowUpdateStack.tail = updating stack
      rw [hholding.updateStack, hstack]
      rfl

/-! Marking a window changes its flag only. -/

theorem held_markRemoved (id : Nat) (stack : List (Frame T C)) :
    held (stack.map (markRemoved id)) = held stack := by
  induction stack with
  | nil => rfl
  | cons frame stack ih =>
    cases frame with
    | window other removed => exact congrArg (other :: ·) ih
    | opening other removed drawing => exact congrArg (other :: ·) ih
    | _ => exact ih

theorem updating_markRemoved (id : Nat) (stack : List (Frame T C)) :
    updating (stack.map (markRemoved id)) = updating stack := by
  induction stack with
  | nil => rfl
  | cons frame stack ih =>
    cases frame with
    | window other removed => exact congrArg (other :: ·) ih
    | opening other removed drawing =>
      cases drawing with
      | true => exact ih
      | false => exact congrArg (other :: ·) ih
    | _ => exact ih

theorem updates_markRemoved (id : Nat) (stack : List (Frame T C)) :
    updates (stack.map (markRemoved id)) = updates stack := by
  induction stack with
  | nil => rfl
  | cons frame stack ih =>
    cases frame with
    | update => exact congrArg (· + 1) ih
    | finishUpdate => exact congrArg (· + 1) ih
    | _ => exact ih

theorem shape_markRemoved (id : Nat) (h : Shape stack) :
    Shape (stack.map (markRemoved id)) := by
  induction stack with
  | nil => trivial
  | cons frame stack ih =>
    cases frame with
    | update => exact ih h
    | finishUpdate =>
      have hstack : stack = [] := h
      rw [hstack]
      rfl
    | window other removed => exact ⟨by simpa using h.1, ih h.2⟩
    | opening other removed drawing => exact ⟨by simpa using h.1, ih h.2⟩
    | handler => exact ⟨by simpa using h.1, ih h.2⟩
    | flush =>
      have hstack : stack = [.finishUpdate] := h
      rw [hstack]
      rfl
    | announce entity tid window called remaining kept =>
      have hstack : stack = [.flush, .finishUpdate] := h
      rw [hstack]
      rfl

/-- A frame that is no call that has a window is there before and after. -/
theorem mem_markRemoved {frame : Frame T C} (hframe : ∀ other, holds other frame = false) :
    frame ∈ stack.map (markRemoved id) ↔ frame ∈ stack := by
  rw [mem_map]
  constructor
  · rintro ⟨before, hmem, rfl⟩
    cases before with
    | window other _ | opening other _ _ =>
      have hfalse := hframe other
      simp [markRemoved, holds] at hfalse
    | _ => exact hmem
  · intro hmem
    refine ⟨frame, hmem, ?_⟩
    cases frame with
    | window other _ | opening other _ _ =>
      have hfalse := hframe other
      simp [holds] at hfalse
    | _ => rfl

theorem Inv.markRemoved (h : s.Inv) (id : Nat) :
    { s with stack := s.stack.map (markRemoved id) }.Inv where
  calls := by
    refine ⟨shape_markRemoved id h.calls.shape, ?_, ?_⟩
    · rw [updates_markRemoved]
      exact h.calls.updates
    · rw [mem_markRemoved (fun _ => rfl)]
      exact h.calls.flushing
  holding := h.holding.same (held_markRemoved id _) (updating_markRemoved id _)

theorem inv_start : (start : State T C).Inv where
  calls := ⟨trivial, rfl, by simp [start]⟩
  holding := by
    refine ⟨?_, nodup_nil, rfl, ?_⟩
    · intro id
      simp [start, held]
    · intro id hid
      exact absurd rfl hid

variable {window : Option Nat} {remaining kept : List (Nat × C)}

/-- The pass of an announcement goes on, above the flush. -/
theorem Inv.announceFrame (h : s.Inv)
    (hstack : s.stack = .announce entity tid window called remaining kept :: stack)
    (called' : Option (Nat × C)) (remaining' kept' : List (Nat × C)) :
    { s with stack := .announce entity tid window called' remaining' kept' :: stack }.Inv := by
  have hcalls := h.calls
  rw [hstack] at hcalls
  obtain ⟨hbelow, hone, hflushing⟩ := hcalls.announce
  refine ⟨?_, h.holding.same (by rw [hstack]; rfl) (by rw [hstack]; rfl)⟩
  show Calls (.announce _ _ _ _ _ _ :: stack) s.pendingUpdates s.flushingEffects
  rw [hbelow, hone, hflushing]
  exact calls_announce _ _ _ _ _ _

variable [DecidableEq T]

theorem Inv.flushEffects (h : s.Inv)
    (hstack : s.stack = .flush :: stack) : (s.flushEffects stack).Inv := by
  have hcalls := h.calls
  rw [hstack] at hcalls
  obtain ⟨hbelow, hone, hflushing⟩ := hcalls.flush
  subst hbelow
  unfold State.flushEffects
  split
  · refine ⟨?_, h.holding.same (by rw [hstack]; rfl) (by rw [hstack]; rfl)⟩
    show Calls [.finishUpdate] s.pendingUpdates s.flushingEffects
    rw [hone, hflushing]
    exact calls_finishUpdate
  · refine ⟨?_, h.holding.same rfl rfl⟩
    apply h.calls.handler
    rw [hstack]
    exact cons_ne_nil _ _
  · unfold State.applyEntityCreated State.startAnnouncement
    split
    · exact ⟨h.calls, h.holding⟩
    · exact ⟨h.calls, h.holding⟩
    · refine ⟨?_, h.holding.same rfl rfl⟩
      show Calls (.announce _ _ _ _ _ _ :: s.stack) s.pendingUpdates s.flushingEffects
      rw [hstack, hone, hflushing]
      exact calls_announce _ _ _ _ _ _

theorem Inv.announce (h : s.Inv)
    (hstack : s.stack = .announce entity tid window called remaining kept :: stack)
    (hannounce : s.announce entity tid window called remaining kept stack = .ok s') : s'.Inv := by
  unfold State.announce at hannounce
  split at hannounce
  · cases hannounce
    exact h.announceFrame hstack _ _ _
  · unfold State.announceNext at hannounce
    split at hannounce
    · cases hannounce
      have hcalls := h.calls
      rw [hstack] at hcalls
      obtain ⟨hbelow, hone, hflushing⟩ := hcalls.announce
      refine ⟨?_, h.holding.same (by rw [hstack]; rfl) (by rw [hstack]; rfl)⟩
      show Calls stack s.pendingUpdates s.flushingEffects
      rw [hbelow, hone, hflushing]
      exact calls_flush
    · rename_i subscriberId callback rest
      dsimp only at hannounce
      split at hannounce
      · cases hannounce
        exact h.announceFrame hstack _ _ _
      · split at hannounce
        · cases hannounce
          exact h.announceFrame hstack _ _ _
        · split at hannounce
          · cases hannounce
            have hinv := h.announceFrame hstack (some (subscriberId, callback)) rest kept
            exact ⟨hinv.calls.handler (cons_ne_nil _ _), hinv.holding.same rfl rfl⟩
          · split at hannounce
            · rename_i htake
              cases hannounce
              exact (h.announceFrame hstack (some (subscriberId, callback)) rest kept).takeWindow htake
            · cases hannounce

theorem Inv.step {a : Action T C} (h : s.Inv) (hstep : s.step a = some (.ok s')) : s'.Inv := by
  unfold State.step at hstep
  cases a with
  | startUpdate =>
    obtain ⟨_, rfl⟩ := Machine.guarded_ok_iff.1 hstep
    exact h.startUpdate
  | reserveEntity | pushEffect | observe _ | recordEntitiesAccessed _ _ | ensureWindow _ _ =>
    obtain ⟨_, rfl⟩ := Machine.guarded_ok_iff.1 hstep
    exact ⟨h.calls, h.holding⟩
  | newEntity entity tid =>
    dsimp only at hstep
    split at hstep
    · simp only [Option.ite_none_right_eq_some, Option.some.injEq, Except.ok.injEq] at hstep
      obtain ⟨_, rfl⟩ := hstep
      exact ⟨h.calls, h.holding⟩
    · cases hstep
  | openWindow =>
    obtain ⟨_, rfl⟩ := Machine.guarded_ok_iff.1 hstep
    exact h.openWindow
  | openWindowFails =>
    obtain ⟨_, rfl⟩ := Machine.guarded_ok_iff.1 hstep
    have hholding := h.startUpdate.holding
    exact ⟨h.startUpdate.calls, hholding.taken, hholding.nodup, hholding.updateStack,
      fun id hid => Nat.lt_succ_of_lt (hholding.issued id hid)⟩
  | updateWindow id =>
    obtain ⟨_, rfl⟩ := Machine.guarded_ok_iff.1 hstep
    exact h.updateWindowId id
  | withWindow entity =>
    obtain ⟨_, rfl⟩ := Machine.guarded_ok_iff.1 hstep
    exact h.withWindow entity
  | removeWindow id =>
    obtain ⟨_, rfl⟩ := Machine.guarded_ok_iff.1 hstep
    exact h.markRemoved id
  | returns =>
    dsimp only at hstep
    split at hstep
    · rename_i stack hstack
      cases hstep
      exact h.finishUpdate hstack
    · rename_i id removed stack hstack
      exact h.trail hstack (Option.some.inj hstep)
    · rename_i id removed drawing stack hstack
      exact h.opened hstack (Option.some.inj hstep)
    · rename_i stack hstack
      cases hstep
      have hcalls := h.calls
      rw [hstack] at hcalls
      exact ⟨(hcalls.pop (.inr (.inr rfl))).2, h.holding.same (by rw [hstack]; rfl) (by rw [hstack]; rfl)⟩
    · cases hstep
  | releaseEntity entity =>
    dsimp only at hstep
    split at hstep
    · rename_i hstack
      obtain ⟨_, rfl⟩ := Machine.guarded_ok_iff.1 hstep
      refine ⟨h.calls.handler ?_, h.holding.same rfl rfl⟩
      rw [hstack]
      exact cons_ne_nil _ _
    · cases hstep
  | releaseFocusHandles =>
    dsimp only at hstep
    split at hstep
    · rename_i hstack
      cases hstep
      refine ⟨h.calls.handler ?_, h.holding.same rfl rfl⟩
      rw [hstack]
      exact cons_ne_nil _ _
    · cases hstep
  | next =>
    dsimp only at hstep
    split at hstep
    · rename_i stack hstack
      cases hstep
      exact h.flushEffects hstack
    · rename_i hstack
      exact h.announce hstack (Option.some.inj hstep)
    · rename_i stack hstack
      cases hstep
      have hcalls := h.calls
      rw [hstack] at hcalls
      have hbelow : stack = [] := hcalls.shape
      have hone : s.pendingUpdates = 1 := by
        rw [hcalls.updates, hbelow]
        rfl
      refine ⟨?_, h.holding.same (by rw [hstack]; rfl) (by rw [hstack]; rfl)⟩
      rw [hbelow, hone]
      exact ⟨trivial, rfl, by simp⟩
    · cases hstep

end State

end Windows

end Gpui
