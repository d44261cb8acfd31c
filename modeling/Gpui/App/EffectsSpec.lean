import Gpui.App.Effects

/-! # Effects run to completion

    The calls that are running are nested in few ways: a flush is only begun by the
    outermost update or by `shutdown`, and a handler only by a flush.  This holds in
    every run in which no update is started while `shutdown` flushes.  From it follow
    the other parts of the invariant: the queue is empty when an outermost update or
    `shutdown` returns, and the observers of an entity are in place when a notification
    of it is applied.

    An update that is started while `shutdown` flushes enters the flush a second time:
    `shutdown` does not set the flag that tells `finish_update` of the flush. -/

namespace Gpui

open List

variable {E T P C : Type}

/-- The entity that an effect notifies of. -/
def Effect.notified : Effect E T P → Option E
  | .notify emitter => some emitter
  | _               => none

/-- The type that an effect notifies the global observers of. -/
def Effect.notifiedGlobal : Effect E T P → Option T
  | .notifyGlobalObservers globalType => some globalType
  | _                                 => none

theorem Effect.mem_notified {e : E} {queue : List (Effect E T P)} :
    e ∈ queue.filterMap Effect.notified ↔ .notify e ∈ queue := by
  rw [mem_filterMap]
  constructor
  · intro ⟨effect, hmem, hnotified⟩
    cases effect with
    | notify emitter =>
      cases hnotified
      exact hmem
    | _ => cases hnotified
  · intro hmem
    exact ⟨_, hmem, rfl⟩

/-- The loop of `flush_effects`. -/
def Frame.isFlush : Frame E C → Bool
  | .flush => true
  | _      => false

/-- The calls that an effect, or the release of an entity, leads to. -/
def Frame.isHandler : Frame E C → Bool
  | .release | .handler | .retain _ _ _ | .observer _ => true
  | .update | .finishUpdate | .shutdown | .finishShutdown | .flush => false

namespace World

/-! ## Section 1: The calls that are running -/

/-- Where an outermost update may run: alone, or called by a quit observer. -/
def Base (stack : List (Frame E C)) : Prop :=
  stack = [] ∨ stack = [.shutdown]

/-- A flush with the calls around it, the number of pending updates and the flag. -/
inductive Flushes : List (Frame E C) → Nat → Bool → Prop where
  | update : ∀ {base}, Base base → Flushes (.flush :: .finishUpdate :: base) 1 true
  | shutdown : Flushes [.flush, .finishShutdown] 0 false

/-- Code may start an update in the innermost call. -/
def MayUpdate (stack : List (Frame E C)) : Prop :=
  stack = [] ∨ ∃ frame rest, stack = frame :: rest ∧ frame.runsCode = true

/-- The stacks of a run in which no update is started while `shutdown` flushes. -/
inductive Calls : List (Frame E C) → Nat → Bool → Prop where
  | base : ∀ {stack}, Base stack → Calls stack 0 false
  | update : ∀ {stack n b}, Calls stack n b → MayUpdate stack → .finishShutdown ∉ stack →
      Calls (.update :: stack) (n + 1) b
  | finishUpdate : ∀ {stack}, Base stack → Calls (.finishUpdate :: stack) 1 true
  | finishShutdown : Calls [.finishShutdown] 0 false
  | flush : ∀ {stack n b}, Flushes stack n b → Calls stack n b
  | release : ∀ {stack n b}, Flushes stack n b → Calls (.release :: stack) n b
  | handler : ∀ {stack n b}, Flushes stack n b → Calls (.handler :: stack) n b
  | retain : ∀ {stack n b} (delivery : Delivery E) (remaining kept : List (Nat × C)),
      Flushes stack n b → Calls (.retain delivery remaining kept :: stack) n b
  | observer : ∀ {stack n b} (subscriberId : Nat) (delivery : Delivery E)
      (remaining kept : List (Nat × C)), Flushes stack n b →
      Calls (.observer subscriberId :: .retain delivery remaining kept :: stack) n b

section calls

variable {stack : List (Frame E C)} {n : Nat} {b : Bool}

theorem Calls.of_nil (h : Calls ([] : List (Frame E C)) n b) : n = 0 ∧ b = false := by
  cases h with
  | base hbase => exact ⟨rfl, rfl⟩
  | flush hflush => cases hflush

theorem Calls.of_flush (h : Calls (.flush :: stack) n b) : Flushes (.flush :: stack) n b := by
  cases h with
  | base hbase => simp [Base] at hbase
  | flush hflush => exact hflush

theorem Calls.of_shutdown (h : Calls (.shutdown :: stack) n b) :
    stack = [] ∧ n = 0 ∧ b = false := by
  cases h with
  | base hbase => simpa [Base] using hbase
  | flush hflush => cases hflush

theorem Calls.of_finishUpdate (h : Calls (.finishUpdate :: stack) n b) : Base stack ∧ n = 1 := by
  cases h with
  | base hbase => simp [Base] at hbase
  | finishUpdate hbase => exact ⟨hbase, rfl⟩
  | flush hflush => cases hflush

theorem Calls.of_finishShutdown (h : Calls (.finishShutdown :: stack) n b) :
    stack = [] ∧ n = 0 ∧ b = false := by
  cases h with
  | base hbase => simp [Base] at hbase
  | finishShutdown => exact ⟨rfl, rfl, rfl⟩
  | flush hflush => cases hflush

/-- When a flush ends, `finish_update` or `shutdown` goes on. -/
theorem Flushes.ends (h : Flushes (.flush :: stack) n b) : Calls stack n b := by
  cases h with
  | update hbase => exact Calls.finishUpdate hbase
  | shutdown => exact Calls.finishShutdown

theorem Calls.of_called {frame : Frame E C} (h : Calls (frame :: stack) n b)
    (hframe : frame = .release ∨ frame = .handler) : Flushes stack n b := by
  cases h with
  | base hbase => obtain rfl | rfl := hframe <;> simp [Base] at hbase
  | flush hflush => obtain rfl | rfl := hframe <;> cases hflush
  | release hflush => exact hflush
  | handler hflush => exact hflush
  | _ => simp at hframe

variable {delivery : Delivery E} {remaining kept : List (Nat × C)}

theorem Calls.of_retain (h : Calls (.retain delivery remaining kept :: stack) n b) :
    Flushes stack n b := by
  cases h with
  | base hbase => simp [Base] at hbase
  | flush hflush => cases hflush
  | retain _ _ _ hflush => exact hflush

theorem Calls.of_observer {subscriberId : Nat}
    (h : Calls (.observer subscriberId :: .retain delivery remaining kept :: stack) n b) :
    Flushes stack n b := by
  cases h with
  | base hbase => simp [Base] at hbase
  | flush hflush => cases hflush
  | observer _ _ _ _ hflush => exact hflush

/-- The update that returns was outermost, or it was called by other code. -/
theorem Calls.of_update (h : Calls (.update :: stack) n b) :
    ∃ m, n = m + 1 ∧ Calls stack m b ∧ MayUpdate stack ∧ .finishShutdown ∉ stack := by
  cases h with
  | base hbase => simp [Base] at hbase
  | update hcalls hmay hnot => exact ⟨_, rfl, hcalls, hmay, hnot⟩
  | flush hflush => cases hflush

/-- With no update pending and no flush, nothing but `shutdown` may be running. -/
theorem Calls.base_of_zero (h : Calls stack 0 false) (hnot : .finishShutdown ∉ stack) :
    Base stack := by
  cases h with
  | base hbase => exact hbase
  | finishShutdown => simp at hnot
  | flush hflush => cases hflush; simp at hnot
  | release hflush => cases hflush; simp at hnot
  | handler hflush => cases hflush; simp at hnot
  | retain delivery remaining kept hflush => cases hflush; simp at hnot
  | observer id delivery remaining kept hflush => cases hflush; simp at hnot

end calls

/-! ## Section 2: The queue -/

/-- A set of pending keys says which keys the queue holds an effect for, and it holds
    at most one for each. -/
structure Tracks {X : Type} (pending : Finset X) (key : Effect E T P → Option X)
    (queue : List (Effect E T P)) : Prop where
  nodup : (queue.filterMap key).Nodup
  mem_iff : ∀ x, x ∈ pending ↔ x ∈ queue.filterMap key

section tracks

variable {X : Type} {pending : Finset X} {key : Effect E T P → Option X}
  {queue : List (Effect E T P)} {effect : Effect E T P}

theorem tracks_nil : Tracks ∅ key ([] : List (Effect E T P)) where
  nodup := by simp
  mem_iff := by simp

theorem Tracks.push_key [DecidableEq X] (h : Tracks pending key queue) {x : X}
    (hkey : key effect = some x) (hx : x ∉ pending) :
    Tracks (insert x pending) key (queue ++ [effect]) where
  nodup := by
    -- the set says that the queue has no effect for this key yet
    have hnot : x ∉ queue.filterMap key := fun hmem => hx ((h.mem_iff x).2 hmem)
    simp only [filterMap_append, filterMap_cons, hkey, filterMap_nil]
    simpa using h.nodup.concat hnot
  mem_iff := by
    intro y
    simp [hkey, h.mem_iff y, or_comm]

theorem Tracks.push_other (h : Tracks pending key queue) (hkey : key effect = none) :
    Tracks pending key (queue ++ [effect]) where
  nodup := by simpa [hkey] using h.nodup
  mem_iff := by simpa [hkey] using h.mem_iff

theorem Tracks.pop_key [DecidableEq X] (h : Tracks pending key (effect :: queue)) {x : X}
    (hkey : key effect = some x) : Tracks (pending.erase x) key queue := by
  obtain ⟨hnodup, hmem⟩ := h
  simp only [filterMap_cons, hkey, nodup_cons, mem_cons] at hnodup hmem
  constructor
  · exact hnodup.2
  · intro y
    rw [Finset.mem_erase, hmem y]
    constructor
    · intro h
      exact h.2.resolve_left h.1
    · intro hy
      -- a second effect for the key would be a duplicate
      exact ⟨fun heq => hnodup.1 (heq ▸ hy), Or.inr hy⟩

theorem Tracks.pop_other (h : Tracks pending key (effect :: queue)) (hkey : key effect = none) :
    Tracks pending key queue where
  nodup := by simpa [hkey] using h.nodup
  mem_iff := by simpa [hkey] using h.mem_iff

end tracks

/-- Every effect pushed was applied or is in the queue, in the order of pushes, and the
    sets of pending notifications are those of the queue. -/
structure Queue (w : World E T P C) : Prop where
  pushed : w.pushed = w.applied ++ w.app.pendingEffects
  notifications : Tracks w.app.pendingNotifications Effect.notified w.app.pendingEffects
  globals : Tracks w.app.pendingGlobalNotifications Effect.notifiedGlobal w.app.pendingEffects

/-- The queue looks at the app and the log of effects only. -/
theorem Queue.congr {w w' : World E T P C} (h : w.Queue) (hpushed : w'.pushed = w.pushed)
    (happlied : w'.applied = w.applied)
    (hqueue : w'.app.pendingEffects = w.app.pendingEffects)
    (hnotify : w'.app.pendingNotifications = w.app.pendingNotifications)
    (hglobal : w'.app.pendingGlobalNotifications = w.app.pendingGlobalNotifications) :
    w'.Queue := by
  constructor
  · rw [hpushed, happlied, hqueue]
    exact h.pushed
  · rw [hnotify, hqueue]
    exact h.notifications
  · rw [hglobal, hqueue]
    exact h.globals

theorem Queue.pushEffect [DecidableEq E] [DecidableEq T] {w : World E T P C} (h : w.Queue)
    (effect : Effect E T P) :
    (w.pushEffect effect).Queue := by
  obtain ⟨hpushed, hnotify, hglobal⟩ := h
  unfold World.pushEffect App.pushEffect
  cases effect with
  | notify emitter =>
    by_cases hmem : emitter ∈ w.app.pendingNotifications
    · -- the notification is pending already and nothing is pushed
      simpa [hmem] using ⟨hpushed, hnotify, hglobal⟩
    · simp only [hmem, if_false]
      exact ⟨by simp [hpushed], hnotify.push_key rfl hmem, hglobal.push_other rfl⟩
  | notifyGlobalObservers globalType =>
    by_cases hmem : globalType ∈ w.app.pendingGlobalNotifications
    · simpa [hmem] using ⟨hpushed, hnotify, hglobal⟩
    · simp only [hmem, if_false]
      exact ⟨by simp [hpushed], hnotify.push_other rfl, hglobal.push_key rfl hmem⟩
  | _ => exact ⟨by simp [hpushed], hnotify.push_other rfl, hglobal.push_other rfl⟩

/-- What the loop of the flush does to the queue when it takes an effect off it. -/
theorem Queue.pop [DecidableEq E] [DecidableEq T] {w : World E T P C} (h : w.Queue)
    {effect : Effect E T P}
    {queue : List (Effect E T P)} (hqueue : w.app.pendingEffects = effect :: queue) :
    Queue { w with
      app := { w.app with pendingEffects := queue }.clearPending effect
      applied := w.applied ++ [effect] } := by
  obtain ⟨hpushed, hnotify, hglobal⟩ := h
  rw [hqueue] at hpushed hnotify hglobal
  unfold App.clearPending
  cases effect with
  | notify emitter => exact ⟨by simp [hpushed], hnotify.pop_key rfl, hglobal.pop_other rfl⟩
  | notifyGlobalObservers globalType =>
    exact ⟨by simp [hpushed], hnotify.pop_other rfl, hglobal.pop_key rfl⟩
  | _ => exact ⟨by simp [hpushed], hnotify.pop_other rfl, hglobal.pop_other rfl⟩

/-! ## Section 3: The passes over observers -/

/-- Only the observers that are being called are taken out of the set, and a pass
    reaches all of them in turn. -/
structure Passes (stack : List (Frame E C)) (observers : SubscriberSet E C) : Prop where
  taken : ∀ e, observers.subscribers e = some none →
    ∃ delivery remaining kept, .retain delivery remaining kept ∈ stack ∧ delivery.emitter = e
  registered : ∀ delivery remaining kept, .retain delivery remaining kept ∈ stack →
    delivery.registered = delivery.reached.map Prod.fst ++ remaining.map Prod.fst

section passes

variable {stack stack' : List (Frame E C)} {observers observers' : SubscriberSet E C}

theorem Passes.congr (h : Passes stack observers) (hstack : ∀ delivery remaining kept,
      .retain delivery remaining kept ∈ stack' ↔ .retain delivery remaining kept ∈ stack)
    (hobservers : ∀ e, observers'.subscribers e = some none →
      observers.subscribers e = some none) : Passes stack' observers' where
  taken := by
    intro e he
    obtain ⟨delivery, remaining, kept, hmem, heq⟩ := h.taken e (hobservers e he)
    exact ⟨delivery, remaining, kept, (hstack delivery remaining kept).2 hmem, heq⟩
  registered := by
    intro delivery remaining kept hmem
    exact h.registered delivery remaining kept ((hstack delivery remaining kept).1 hmem)

/-- A pass begins. -/
theorem Passes.begin [DecidableEq E] (h : Passes stack observers) (emitter : E)
    (subscribers : Subscribers C) :
    Passes (.retain ⟨emitter, subscribers.toList.map Prod.fst, []⟩ subscribers.toList [] :: stack)
      (observers.setEntry emitter (some none)) where
  taken := by
    intro e he
    by_cases heq : e = emitter
    · exact ⟨_, _, _, mem_cons_self, heq.symm⟩
    · rw [observers.setEntry_of_ne _ heq] at he
      obtain ⟨delivery, remaining, kept, hmem, hemitter⟩ := h.taken e he
      exact ⟨delivery, remaining, kept, mem_cons_of_mem _ hmem, hemitter⟩
  registered := by
    intro delivery remaining kept hmem
    cases mem_cons.1 hmem with
    | inl heq =>
      cases heq
      simp
    | inr hmem => exact h.registered delivery remaining kept hmem

/-- The pass that is under way goes on to another observer. -/
theorem Passes.advance {delivery delivery' : Delivery E} {remaining remaining' : List (Nat × C)}
    {kept kept' : List (Nat × C)} (h : Passes (.retain delivery remaining kept :: stack) observers)
    (hemitter : delivery'.emitter = delivery.emitter) (hregistered : delivery'.registered
      = delivery'.reached.map Prod.fst ++ remaining'.map Prod.fst) :
    Passes (.retain delivery' remaining' kept' :: stack) observers where
  taken := by
    intro e he
    obtain ⟨other, otherRemaining, otherKept, hmem, heq⟩ := h.taken e he
    cases mem_cons.1 hmem with
    | inl hframe =>
      cases hframe
      exact ⟨_, _, _, mem_cons_self, hemitter.trans heq⟩
    | inr hmem => exact ⟨other, otherRemaining, otherKept, mem_cons_of_mem _ hmem, heq⟩
  registered := by
    intro other otherRemaining otherKept hmem
    cases mem_cons.1 hmem with
    | inl hframe =>
      cases hframe
      exact hregistered
    | inr hmem =>
      exact h.registered other otherRemaining otherKept (mem_cons_of_mem _ hmem)

/-- The entry that is written back for some observers is no placeholder. -/
theorem entry_ne_placeholder (subscribers : Subscribers C) :
    (if subscribers.isEmpty then none else some (some subscribers)) ≠
      (some none : Option (Option (Subscribers C))) := by
  split
  · intro h
    cases h
  · intro h
    cases h

/-- The pass ends, and the observers it kept are put back. -/
theorem Passes.finish [DecidableEq E] {delivery : Delivery E} {remaining kept : List (Nat × C)}
    (h : Passes (.retain delivery remaining kept :: stack) observers) :
    Passes stack (observers.mergeBack delivery.emitter kept) where
  taken := by
    intro e he
    by_cases heq : e = delivery.emitter
    · -- the entry of the emitter is a map or nothing
      subst heq
      unfold SubscriberSet.mergeBack at he
      simp only [SubscriberSet.setEntry_self] at he
      exact absurd he (entry_ne_placeholder _)
    · unfold SubscriberSet.mergeBack at he
      rw [observers.setEntry_of_ne _ heq] at he
      obtain ⟨other, otherRemaining, otherKept, hmem, hother⟩ := h.taken e he
      cases mem_cons.1 hmem with
      | inl hframe =>
        cases hframe
        exact absurd hother.symm heq
      | inr hmem => exact ⟨other, otherRemaining, otherKept, hmem, hother⟩
  registered := by
    intro other otherRemaining otherKept hmem
    exact h.registered other otherRemaining otherKept (mem_cons_of_mem _ hmem)

/-- Code never takes observers out of the set. -/
theorem not_taken_of_apply [DecidableEq E] (op : SubscriberSet.Op E C) (e : E)
    (he : (observers.apply op).subscribers e = some none) :
    observers.subscribers e = some none := by
  cases op with
  | insert emitterKey callback =>
    change (observers.insert emitterKey callback).subscribers e = some none at he
    unfold SubscriberSet.insert at he
    by_cases heq : e = emitterKey
    · subst heq
      simp at he
    · simpa [Function.update_of_ne heq] using he
  | activate id =>
    change (observers.activate id).subscribers e = some none at he
    unfold SubscriberSet.activate at he
    split at he
    · exact he
    · exact he
  | drop id =>
    change (observers.drop id).subscribers e = some none at he
    unfold SubscriberSet.drop at he
    split at he
    · exact he
    · rename_i emitterKey hhandle
      dsimp only at he
      split at he
      · exact he
      · exact he
      · rename_i subscribers hsubscribers
        by_cases heq : e = emitterKey
        · subst heq
          simp only [SubscriberSet.setEntry_self] at he
          exact absurd he (entry_ne_placeholder _)
        · rwa [SubscriberSet.setEntry_of_ne _ _ heq] at he

theorem not_taken_of_remove [DecidableEq E] (entity e : E)
    (he : (observers.remove entity).subscribers e = some none) :
    observers.subscribers e = some none := by
  unfold SubscriberSet.remove at he
  by_cases heq : e = entity
  · subst heq
    simp at he
  · rwa [observers.setEntry_of_ne _ heq] at he

end passes

/-! ## Section 4: The invariant -/

/-- The calls between which no effect is pending. -/
def AtRest (stack : List (Frame E C)) : Prop :=
  match stack with
  | []                   => True
  | .finishUpdate :: _   => True
  | .finishShutdown :: _ => True
  | _                    => False

structure Inv (w : World E T P C) : Prop where
  queue : w.Queue
  calls : Calls w.stack w.app.pendingUpdates w.app.flushingEffects
  passes : Passes w.stack w.app.observers
  atRest : AtRest w.stack → w.app.pendingEffects = []
  delivered : ∀ delivery ∈ w.deliveries,
    delivery.reached.map Prod.fst = delivery.registered

/-- What a step may do: start an update, unless `shutdown` flushes. -/
def Allowed (w : World E T P C) (a : Action E T P C) : Prop :=
  a = .startUpdate → .finishShutdown ∉ w.stack

section steps

variable {w : World E T P C} {stack : List (Frame E C)}

theorem inv_start : (start : World E T P C).Inv where
  queue := ⟨rfl, tracks_nil, tracks_nil⟩
  calls := Calls.base (Or.inl rfl)
  passes := ⟨by simp [start, App.new, SubscriberSet.new], by simp [start]⟩
  atRest := fun _ => rfl
  delivered := by simp [start]

theorem runsCode_iff : w.runsCode = true ↔
    ∃ frame rest, w.stack = frame :: rest ∧ frame.runsCode = true := by
  unfold runsCode
  cases w.stack with
  | nil => simp
  | cons frame rest => simp

theorem not_atRest_of_runsCode (h : w.runsCode = true) : ¬ AtRest w.stack := by
  obtain ⟨frame, rest, hstack, hframe⟩ := runsCode_iff.1 h
  rw [hstack]
  cases frame with
  | finishUpdate => cases hframe
  | finishShutdown => cases hframe
  | _ => exact id

theorem mayUpdate_of_mayStart (h : w.stack.isEmpty || w.runsCode) : MayUpdate w.stack := by
  cases Bool.or_eq_true _ _ ▸ h with
  | inl hempty => exact Or.inl (isEmpty_iff.1 hempty)
  | inr hcode => exact Or.inr (runsCode_iff.1 hcode)

theorem Inv.startUpdate (h : w.Inv) (hmay : w.stack.isEmpty || w.runsCode)
    (hnot : .finishShutdown ∉ w.stack) :
    Inv { w with app := w.app.startUpdate, stack := .update :: w.stack } where
  queue := h.queue.congr rfl rfl rfl rfl rfl
  calls := Calls.update h.calls (mayUpdate_of_mayStart hmay) hnot
  passes := h.passes.congr (by simp) (fun e he => he)
  atRest := False.elim
  delivered := h.delivered

theorem Inv.shutdown (h : w.Inv) (hempty : w.stack = []) :
    Inv { w with stack := [.shutdown] } where
  queue := h.queue.congr rfl rfl rfl rfl rfl
  calls := by
    have hcalls := h.calls
    rw [hempty] at hcalls
    obtain ⟨hpending, hflushing⟩ := hcalls.of_nil
    rw [hpending, hflushing]
    exact Calls.base (Or.inr rfl)
  passes := h.passes.congr (by simp [hempty]) (fun e he => he)
  atRest := False.elim
  delivered := h.delivered

theorem Inv.pushEffect [DecidableEq E] [DecidableEq T] (h : w.Inv) (hcode : w.runsCode = true)
    (effect : Effect E T P) :
    (w.pushEffect effect).Inv where
  queue := h.queue.pushEffect effect
  calls := by
    obtain ⟨_, hpending, hflushing⟩ := w.app.pushEffect_frame effect
    change Calls w.stack (w.app.pushEffect effect).pendingUpdates _
    rw [hpending]
    change Calls w.stack _ (w.app.pushEffect effect).flushingEffects
    rw [hflushing]
    exact h.calls
  passes := by
    change Passes w.stack (w.app.pushEffect effect).observers
    rw [(w.app.pushEffect_frame effect).1]
    exact h.passes
  atRest := fun hat => absurd hat (not_atRest_of_runsCode hcode)
  delivered := h.delivered

theorem Inv.observe [DecidableEq E] (h : w.Inv) (op : SubscriberSet.Op E C) :
    Inv { w with app := { w.app with observers := w.app.observers.apply op } } where
  queue := h.queue.congr rfl rfl rfl rfl rfl
  calls := h.calls
  passes := h.passes.congr (fun _ _ _ => Iff.rfl) (not_taken_of_apply op)
  atRest := h.atRest
  delivered := h.delivered

/-- An update returns: the outermost one flushes, the others were called by code. -/
theorem Inv.finishUpdate (h : w.Inv) (hstack : w.stack = .update :: stack) :
    (w.finishUpdate stack).Inv := by
  have hcalls := h.calls
  rw [hstack] at hcalls
  -- `m` updates are pending besides this one
  obtain ⟨m, hpending, hcalls, hmay, hnot⟩ := hcalls.of_update
  unfold World.finishUpdate
  split
  · rename_i houter
    have houter : w.app.flushingEffects = false ∧ w.app.pendingUpdates = 1 := by simpa using houter
    -- the only pending update is this one, so its caller is no update
    obtain rfl : m = 0 := by omega
    rw [houter.1] at hcalls
    exact {
      queue := h.queue.congr rfl rfl rfl rfl rfl
      calls := by
        rw [houter.2]
        exact Calls.flush (Flushes.update (hcalls.base_of_zero hnot))
      passes := h.passes.congr (by simp [hstack]) (fun e he => he)
      atRest := False.elim
      delivered := h.delivered }
  · rename_i houter
    exact {
      queue := h.queue.congr rfl rfl rfl rfl rfl
      calls := by
        rw [hpending]
        exact hcalls
      passes := h.passes.congr (by simp [hstack]) (fun e he => he)
      atRest := by
        intro hat
        cases hmay with
        | inl hempty =>
          -- an update that nothing called is outermost
          subst hempty
          obtain ⟨hm, hflushing⟩ := hcalls.of_nil
          exact absurd (by simp [hpending, hm, hflushing]) houter
        | inr hcode =>
          exact absurd hat (not_atRest_of_runsCode (w := { w with stack := stack })
            (runsCode_iff.2 hcode))
      delivered := h.delivered }

variable {frame : Frame E C} {delivery : Delivery E} {remaining kept : List (Nat × C)}

/-- A call that is no pass returns to what it interrupted; the queue is as before. -/
theorem Inv.popCall (h : w.Inv) (hstack : w.stack = frame :: stack)
    (hcalls : Calls stack w.app.pendingUpdates w.app.flushingEffects)
    (hframe : ∀ delivery remaining kept, frame ≠ .retain delivery remaining kept)
    (hrest : AtRest stack → w.app.pendingEffects = []) : Inv { w with stack := stack } where
  queue := h.queue.congr rfl rfl rfl rfl rfl
  calls := hcalls
  passes := by
    apply h.passes.congr
    · intro delivery remaining kept
      rw [hstack, mem_cons]
      constructor
      · exact Or.inr
      · intro hmem
        exact hmem.resolve_left (hframe delivery remaining kept).symm
    · exact fun e he => he
  atRest := hrest
  delivered := h.delivered

theorem Flushes.not_atRest {n : Nat} {b : Bool} (h : Flushes stack n b) : ¬ AtRest stack := by
  cases h with
  | update hbase => exact id
  | shutdown => exact id

/-- A quit observer or the like returns, and `shutdown` flushes. -/
theorem Inv.flushShutdown (h : w.Inv) (hstack : w.stack = .shutdown :: stack) :
    Inv { w with stack := .flush :: .finishShutdown :: stack } := by
  have hcalls := h.calls
  rw [hstack] at hcalls
  obtain ⟨hnil, hpending, hflushing⟩ := hcalls.of_shutdown
  exact {
    queue := h.queue.congr rfl rfl rfl rfl rfl
    calls := by
      rw [hpending, hflushing, hnil]
      exact Calls.flush Flushes.shutdown
    passes := h.passes.congr (by simp [hstack]) (fun e he => he)
    atRest := False.elim
    delivered := h.delivered }

/-- A release callback or a handler returns to the flush. -/
theorem Inv.returnToFlush (h : w.Inv) (hstack : w.stack = frame :: stack)
    (hframe : frame = .release ∨ frame = .handler) : Inv { w with stack := stack } := by
  have hcalls := h.calls
  rw [hstack] at hcalls
  have hflushes := hcalls.of_called hframe
  -- the flush below is not at rest, so nothing is asked of the queue
  apply h.popCall hstack (Calls.flush hflushes)
  · intro delivery remaining kept heq
    subst heq
    simp at hframe
  · exact fun hat => absurd hat hflushes.not_atRest

theorem Inv.answer (h : w.Inv) {subscriberId : Nat} (callback : C) (keep : Bool)
    (hstack : w.stack = .observer subscriberId :: .retain delivery remaining kept :: stack) :
    (w.answer subscriberId callback keep delivery remaining kept stack).Inv := by
  have hcalls := h.calls
  rw [hstack] at hcalls
  have hpasses : Passes (.retain delivery remaining kept :: stack) w.app.observers :=
    h.passes.congr (by simp [hstack]) (fun e he => he)
  exact {
    queue := h.queue.congr rfl rfl rfl rfl rfl
    calls := Calls.retain _ _ _ hcalls.of_observer
    passes := hpasses.advance rfl (hpasses.registered _ _ _ mem_cons_self)
    atRest := False.elim
    delivered := h.delivered }

/-- The flush runs release callbacks. -/
theorem Inv.release (h : w.Inv) {observers : SubscriberSet E C} (hstack : w.stack = .flush :: stack)
    (hobservers : ∀ e, observers.subscribers e = some none →
      w.app.observers.subscribers e = some none) :
    Inv { w with app := { w.app with observers := observers }, stack := .release :: w.stack } where
  queue := h.queue.congr rfl rfl rfl rfl rfl
  calls := by
    have hcalls := h.calls
    rw [hstack] at hcalls ⊢
    exact Calls.release hcalls.of_flush
  passes := h.passes.congr (by simp) hobservers
  atRest := False.elim
  delivered := h.delivered

/-- The queue takes an effect off, and its handlers are called. -/
theorem Inv.applyEffect [DecidableEq E] [DecidableEq T] (h : w.Inv) {effect : Effect E T P}
    {queue : List (Effect E T P)} (hstack : w.stack = .flush :: stack)
    (hqueue : w.app.pendingEffects = effect :: queue) :
    (w.flushEffects stack).Inv := by
  have hpop := h.queue.pop hqueue
  obtain ⟨hobservers, hpending, hflushing⟩ :=
    App.clearPending_frame { w.app with pendingEffects := queue } effect
  unfold flushEffects
  rw [hqueue]
  dsimp only
  -- only the frame of `clearPending` matters from here on
  generalize hat : ({ w.app with pendingEffects := queue }.clearPending effect) = app at *
  have hflushes : Flushes w.stack app.pendingUpdates app.flushingEffects := by
    have hcalls := h.calls
    rw [hstack] at hcalls ⊢
    rw [hpending, hflushing]
    exact hcalls.of_flush
  have hpasses : Passes w.stack app.observers := by
    rw [hobservers]
    exact h.passes
  -- the flush goes on when no handler is called
  have hflush : Inv { w with app := app, applied := w.applied ++ [effect] } := {
    queue := hpop
    calls := Calls.flush hflushes
    passes := hpasses
    atRest := fun hrest => absurd hrest hflushes.not_atRest
    delivered := h.delivered }
  have hhandler : Inv { w with
      app := app, stack := .handler :: w.stack, applied := w.applied ++ [effect] } := {
    queue := hpop.congr rfl rfl rfl rfl rfl
    calls := Calls.handler hflushes
    passes := hpasses.congr (by simp) (fun e he => he)
    atRest := False.elim
    delivered := h.delivered }
  cases effect with
  | notify emitter =>
    unfold World.applyEffect applyNotifyEffect
    dsimp only
    -- without observers, or when they are being called, nothing is pushed on the stack
    cases hsubscribers : app.observers.subscribers emitter with
    | none => simpa only [hsubscribers] using hflush
    | some taken =>
      cases taken with
      | none => simpa only [hsubscribers] using hflush
      | some subscribers =>
        exact {
          queue := hpop.congr rfl rfl rfl rfl rfl
          calls := Calls.retain _ _ _ hflushes
          passes := hpasses.begin emitter subscribers
          atRest := False.elim
          delivered := h.delivered }
  | refreshWindows => exact hflush
  | _ => exact hhandler

theorem Inv.flushEffects [DecidableEq E] [DecidableEq T] (h : w.Inv)
    (hstack : w.stack = .flush :: stack) : (w.flushEffects stack).Inv := by
  cases hqueue : w.app.pendingEffects with
  | cons effect queue => exact h.applyEffect hstack hqueue
  | nil =>
    -- the queue is empty and the flush ends
    unfold World.flushEffects
    rw [hqueue]
    have hcalls := h.calls
    rw [hstack] at hcalls
    apply h.popCall hstack hcalls.of_flush.ends
    · intro delivery remaining kept heq
      cases heq
    · exact fun _ => hqueue

theorem Inv.retain [DecidableEq E] (h : w.Inv)
    (hstack : w.stack = .retain delivery remaining kept :: stack) :
    (w.retain delivery remaining kept stack).Inv := by
  have hcalls := h.calls
  rw [hstack] at hcalls
  have hpasses := h.passes
  rw [hstack] at hpasses
  -- the subscribers left are those registered and not reached
  have hregistered := hpasses.registered _ _ _ mem_cons_self
  cases remaining with
  | nil =>
    exact {
      queue := h.queue.congr rfl rfl rfl rfl rfl
      calls := Calls.flush hcalls.of_retain
      passes := hpasses.finish
      atRest := fun hrest => absurd hrest hcalls.of_retain.not_atRest
      delivered := by
        intro other hother
        cases mem_append.1 hother with
        | inl hold => exact h.delivered other hold
        | inr hnew =>
          obtain rfl : other = delivery := by simpa using hnew
          simpa using hregistered.symm }
  | cons first rest =>
    obtain ⟨subscriberId, callback⟩ := first
    -- whatever the turn of the subscriber comes to, it is marked as reached
    have hadvance : ∀ (called : Bool) (kept' : List (Nat × C)), Passes (.retain
        { delivery with reached := delivery.reached ++ [(subscriberId, called)] } rest kept'
          :: stack) w.app.observers := by
      intro called kept'
      refine hpasses.advance ?_ ?_
      · rfl
      · simpa using hregistered
    unfold World.retain
    dsimp only
    split
    · exact {
        queue := h.queue.congr rfl rfl rfl rfl rfl
        calls := Calls.retain _ _ _ hcalls.of_retain
        passes := hadvance false _
        atRest := False.elim
        delivered := h.delivered }
    · split
      · exact {
          queue := h.queue.congr rfl rfl rfl rfl rfl
          calls := Calls.retain _ _ _ hcalls.of_retain
          passes := hadvance false _
          atRest := False.elim
          delivered := h.delivered }
      · exact {
          queue := h.queue.congr rfl rfl rfl rfl rfl
          calls := Calls.observer _ _ _ _ hcalls.of_retain
          passes := (hadvance true kept).congr (by simp) (fun e he => he)
          atRest := False.elim
          delivered := h.delivered }

/-- `finish_update` comes back from its flush. -/
theorem Inv.finishFlush (h : w.Inv) (hstack : w.stack = .finishUpdate :: stack) :
    Inv { w with
      app := { w.app with
        flushingEffects := false
        pendingUpdates := w.app.pendingUpdates - 1 }
      stack := stack } := by
  have hcalls := h.calls
  rw [hstack] at hcalls
  obtain ⟨hbase, hpending⟩ := hcalls.of_finishUpdate
  exact {
    queue := h.queue.congr rfl rfl rfl rfl rfl
    calls := by
      rw [hpending]
      exact Calls.base hbase
    passes := h.passes.congr (by simp [hstack]) (fun e he => he)
    atRest := by
      intro _
      apply h.atRest
      rw [hstack]
      trivial
    delivered := h.delivered }

theorem Inv.finishShutdown (h : w.Inv) (hstack : w.stack = .finishShutdown :: stack) :
    Inv { w with stack := stack } := by
  have hcalls := h.calls
  rw [hstack] at hcalls
  obtain ⟨hnil, hpending, hflushing⟩ := hcalls.of_finishShutdown
  apply h.popCall hstack
  · rw [hnil, hpending, hflushing]
    exact Calls.base (Or.inl rfl)
  · intro delivery remaining kept heq
    cases heq
  · intro _
    apply h.atRest
    rw [hstack]
    trivial

end steps

variable {w w' : World E T P C} {n : Nat} {b : Bool}

theorem Inv.step [DecidableEq E] [DecidableEq T] (h : w.Inv) {a : Action E T P C}
    (hallowed : Allowed w a) (hstep : w.step a = some w') : w'.Inv := by
  unfold World.step at hstep
  -- an action that is not possible leads to no `w'`
  cases a with
  | startUpdate =>
    dsimp only at hstep
    split at hstep
    · rename_i hmay
      cases hstep
      exact h.startUpdate hmay (hallowed rfl)
    · cases hstep
  | shutdown =>
    dsimp only at hstep
    split at hstep
    · rename_i hempty
      cases hstep
      exact h.shutdown (isEmpty_iff.1 hempty)
    · cases hstep
  | pushEffect effect =>
    dsimp only at hstep
    split at hstep
    · rename_i hcode
      cases hstep
      exact h.pushEffect hcode effect
    · cases hstep
  | observe op =>
    dsimp only at hstep
    split at hstep
    · cases hstep
      exact h.observe op
    · cases hstep
  | returns =>
    dsimp only at hstep
    split at hstep
    · rename_i stack hstack
      cases hstep
      exact h.finishUpdate hstack
    · rename_i stack hstack
      cases hstep
      exact h.flushShutdown hstack
    · rename_i stack hstack
      cases hstep
      exact h.returnToFlush hstack (Or.inl rfl)
    · rename_i stack hstack
      cases hstep
      exact h.returnToFlush hstack (Or.inr rfl)
    · cases hstep
  | answer callback keep =>
    dsimp only at hstep
    split at hstep
    · rename_i hstack
      cases hstep
      exact h.answer callback keep hstack
    · cases hstep
  | releaseEntity entity =>
    dsimp only at hstep
    split at hstep
    · rename_i stack hstack
      cases hstep
      exact h.release hstack (not_taken_of_remove entity)
    · cases hstep
  | releaseFocusHandle =>
    dsimp only at hstep
    split at hstep
    · rename_i stack hstack
      cases hstep
      exact h.release hstack (fun e he => he)
    · cases hstep
  | next =>
    dsimp only at hstep
    split at hstep
    · rename_i stack hstack
      cases hstep
      exact h.flushEffects hstack
    · rename_i hstack
      cases hstep
      exact h.retain hstack
    · rename_i stack hstack
      cases hstep
      exact h.finishFlush hstack
    · rename_i stack hstack
      cases hstep
      exact h.finishShutdown hstack
    · cases hstep

theorem Reaches.inv [DecidableEq E] [DecidableEq T] {w : World E T P C}
    (h : Reaches Allowed w) : w.Inv := by
  -- induction on the steps of the run; `Allowed` is used in the step of `startUpdate` only
  induction h with
  | start => exact inv_start
  | step a _ hallowed hstep ih => exact ih.step hallowed hstep

/-! ## Section 5: Runs to completion -/

structure Complete (w : World E T P C) : Prop where
  /-- The flush is never entered a second time. -/
  oneFlush : w.stack.countP Frame.isFlush ≤ 1
  /-- An effect is only applied when no handler of another one is running. -/
  alone : ∀ stack, w.stack = .flush :: stack → ∀ frame ∈ stack, frame.isHandler = false
  /-- Every effect pushed is applied once, in the order of pushes. -/
  inOrder : w.pushed = w.applied ++ w.app.pendingEffects
  notifications : ∀ e, e ∈ w.app.pendingNotifications ↔ .notify e ∈ w.app.pendingEffects
  once : (w.app.pendingEffects.filterMap Effect.notified).Nodup
  /-- Nothing is pending when an outermost update or `shutdown` returns. -/
  atRest : AtRest w.stack → w.app.pendingEffects = []
  /-- When a notification is applied, the observers of the emitter are in the set. -/
  inPlace : ∀ stack e queue, w.stack = .flush :: stack →
    w.app.pendingEffects = .notify e :: queue → w.app.observers.subscribers e ≠ some none
  /-- A pass reaches, one after the other, all observers that were registered. -/
  passes : ∀ delivery remaining kept, .retain delivery remaining kept ∈ w.stack →
    delivery.registered = delivery.reached.map Prod.fst ++ remaining.map Prod.fst
  delivered : ∀ delivery ∈ w.deliveries,
    delivery.reached.map Prod.fst = delivery.registered

variable {stack : List (Frame E C)}

theorem Calls.oneFlush (h : Calls stack n b) : stack.countP Frame.isFlush ≤ 1 := by
  -- there is one flush in the calls around a flush, and none below an outermost update
  have hbase : ∀ {base : List (Frame E C)}, Base base → base.countP Frame.isFlush = 0 := by
    intro base hbase
    cases hbase with
    | inl h => simp [h]
    | inr h => simp [h, Frame.isFlush]
  have hflushes : ∀ {stack : List (Frame E C)} {n : Nat} {b : Bool},
      Flushes stack n b → stack.countP Frame.isFlush = 1 := by
    intro stack n b hflush
    cases hflush with
    | update h => simp [countP_cons, Frame.isFlush, hbase h]
    | shutdown => simp [countP_cons, Frame.isFlush]
  induction h with
  | base h => simp [hbase h]
  | update _ _ _ ih => simpa [Frame.isFlush] using ih
  | finishUpdate h => simp [Frame.isFlush, hbase h]
  | finishShutdown => simp [Frame.isFlush]
  | flush h => simp [hflushes h]
  | release h => simp [Frame.isFlush, hflushes h]
  | handler h => simp [Frame.isFlush, hflushes h]
  | retain _ _ _ h => simp [Frame.isFlush, hflushes h]
  | observer _ _ _ _ h => simp [Frame.isFlush, hflushes h]

theorem Flushes.alone (h : Flushes (.flush :: stack) n b) :
    ∀ frame ∈ stack, frame.isHandler = false := by
  cases h with
  | update hbase =>
    cases hbase with
    | inl h => simp [h, Frame.isHandler]
    | inr h => simp [h, Frame.isHandler]
  | shutdown => simp [Frame.isHandler]

theorem Inv.complete {w : World E T P C} (h : w.Inv) : w.Complete where
  oneFlush := h.calls.oneFlush
  alone := by
    intro stack hstack
    have hcalls := h.calls
    rw [hstack] at hcalls
    exact hcalls.of_flush.alone
  inOrder := h.queue.pushed
  notifications := by
    intro e
    rw [h.queue.notifications.mem_iff e, Effect.mem_notified]
  once := h.queue.notifications.nodup
  atRest := h.atRest
  inPlace := by
    intro stack e queue hstack _ htaken
    -- observers that are out of the set belong to a pass, and a pass is a handler
    obtain ⟨delivery, remaining, kept, hmem, _⟩ := h.passes.taken e htaken
    have hcalls := h.calls
    rw [hstack] at hcalls hmem
    cases mem_cons.1 hmem with
    | inl heq => cases heq
    | inr hmem => exact absurd (hcalls.of_flush.alone _ hmem) (by simp [Frame.isHandler])
  passes := h.passes.registered
  delivered := h.delivered

/-- While `shutdown` flushes, the counter and the flag are as if nothing were running. -/
theorem Calls.in_shutdown (h : Calls stack n b) (hmem : .finishShutdown ∈ stack)
    (hmay : MayUpdate stack) : n = 0 ∧ b = false ∧ 1 ≤ stack.countP Frame.isFlush := by
  -- the flush of an update has no `shutdown` flushing below it
  have hflushes : ∀ {stack : List (Frame E C)} {n : Nat} {b : Bool}, Flushes stack n b →
      .finishShutdown ∈ stack → n = 0 ∧ b = false ∧ 1 ≤ stack.countP Frame.isFlush := by
    intro stack n b hflush hmem
    cases hflush with
    | update h =>
      cases h with
      | inl h => simp [h] at hmem
      | inr h => simp [h] at hmem
    | shutdown => simp [countP_cons, Frame.isFlush]
  cases h with
  | base h =>
    cases h with
    | inl h => simp [h] at hmem
    | inr h => simp [h] at hmem
  | update _ _ hnot => exact absurd (by simpa using hmem) hnot
  | finishUpdate _ | finishShutdown | retain _ _ _ _ => simp [MayUpdate, Frame.runsCode] at hmay
  | flush h => exact hflushes h hmem
  | release h | handler h => simpa [Frame.isFlush] using hflushes h (by simpa using hmem)
  | observer _ _ _ _ h => simpa [Frame.isFlush] using hflushes h (by simpa using hmem)

/-- An update that is started while `shutdown` flushes enters the flush again when it
    returns. -/
theorem Inv.reenters [DecidableEq E] [DecidableEq T] (h : w.Inv)
    (hmem : .finishShutdown ∈ w.stack) (hstep : w.step .startUpdate = some w') :
    ∃ w'', w'.step .returns = some w'' ∧ ¬ w''.Complete := by
  unfold World.step at hstep
  dsimp only at hstep
  split at hstep
  · rename_i hmay
    cases hstep
    have hcode : MayUpdate w.stack := mayUpdate_of_mayStart hmay
    obtain ⟨hpending, hflushing, hflush⟩ := h.calls.in_shutdown hmem hcode
    refine ⟨_, rfl, ?_⟩
    intro hcomplete
    -- the update counts as outermost, so `finish_update` flushes above the flush of `shutdown`
    have hone := hcomplete.oneFlush
    unfold World.finishUpdate at hone
    simp only [App.startUpdate, hpending, hflushing, Bool.not_false, Nat.zero_add, beq_self_eq_true,
      Bool.and_self, if_true, countP_cons] at hone
    simp only [Frame.isFlush, if_true] at hone
    omega
  · cases hstep

/-- Effects run to completion in every run in which no code that the flush of `shutdown`
    calls starts an update.  The first update that is started there enters the flush
    again. -/
theorem effects_complete [DecidableEq E] [DecidableEq T] {w : World E T P C}
    (h : Reaches Allowed w) :
    w.Complete ∧ ∀ w', w.step .startUpdate = some w' → ¬ Allowed w .startUpdate →
      ∃ w'', w'.step .returns = some w'' ∧ ¬ w''.Complete := by
  constructor
  · exact h.inv.complete
  · intro w' hstep hnot
    apply h.inv.reenters _ hstep
    by_contra hmem
    exact hnot (fun _ => hmem)

theorem Reaches.run [DecidableEq E] [DecidableEq T]
    {Allowed : World E T P C → Action E T P C → Prop} (h : Reaches Allowed w)
    (actions : List (Action E T P C)) (hallowed : ∀ w, ∀ a ∈ actions, Allowed w a)
    (hrun : w.run actions = some w') : Reaches Allowed w' := by
  -- induction on the actions, from any reachable world
  induction actions generalizing w with
  | nil =>
    cases hrun
    exact h
  | cons a rest ih =>
    obtain ⟨next, hstep, hrest⟩ := Option.bind_eq_some_iff.1 hrun
    apply ih (Reaches.step a h (hallowed w a mem_cons_self) hstep) _ hrest
    exact fun w b hb => hallowed w b (mem_cons_of_mem a hb)

/-- An update with two observers of an entity, of which the first one drops the second and
    notifies of another entity. -/
theorem effects_complete_twoObservers :
    ∃ w : World Nat Nat Unit Unit, Reaches Allowed w ∧ w.Complete ∧ w.stack = [] ∧
      w.applied = [.notify 0, .defer (), .notify 1] ∧
      w.deliveries = [⟨0, [0, 1], [(0, true), (1, false)]⟩] := by
  let actions : List (Action Nat Nat Unit Unit) :=
    [.observe (.insert 0 ()), .observe (.activate 0), .observe (.insert 0 ()),
      .observe (.activate 1), .pushEffect (.notify 0), .pushEffect (.defer ()),
      .pushEffect (.notify 0), .returns, .next, .next, .pushEffect (.notify 1),
      .observe (.drop 1), .answer () true, .next, .next, .next, .returns, .next, .next, .next]
  have hrun : ∃ started w, (start : World Nat Nat Unit Unit).step .startUpdate = some started ∧
      started.run actions = some w ∧ w.stack = [] ∧
      w.applied = [.notify 0, .defer (), .notify 1] ∧
      w.deliveries = [⟨0, [0, 1], [(0, true), (1, false)]⟩] := ⟨_, _, rfl, rfl, rfl, rfl, rfl⟩
  obtain ⟨started, w, hstart, hrun, hstack, happlied, hdeliveries⟩ := hrun
  have hallowed : ∀ w, ∀ a ∈ actions, Allowed w a := by
    simp [actions, Allowed]
  have h := (Reaches.start.step .startUpdate (by simp [Allowed, start]) hstart).run actions
    hallowed hrun
  exact ⟨w, h, (effects_complete h).1, hstack, happlied, hdeliveries⟩

/-- An observer of an entity that, called while `shutdown` flushes, notifies of the same
    entity in an update. -/
def notifyInShutdown : List (Action Nat Nat Unit Unit) :=
  [.startUpdate, .observe (.insert 0 ()), .observe (.activate 0), .returns, .next, .next,
    .shutdown, .pushEffect (.notify 0), .returns, .next, .next,
    .startUpdate, .pushEffect (.notify 0), .returns]

/-- The update of the observer enters the flush a second time. -/
theorem effects_lost_in_shutdown :
    ¬ ∀ w : World Nat Nat Unit Unit, Reaches (fun _ _ => True) w → w.Complete := by
  intro h
  have hrun : ∃ w, start.run notifyInShutdown = some w ∧ 2 ≤ w.stack.countP Frame.isFlush := by
    refine ⟨_, rfl, ?_⟩
    decide
  obtain ⟨w, hrun, htwo⟩ := hrun
  have hone := (h w (Reaches.start.run notifyInShutdown (fun _ _ _ => trivial) hrun)).oneFlush
  omega

end World

end Gpui
