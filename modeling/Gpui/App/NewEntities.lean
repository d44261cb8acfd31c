import Gpui.App.WindowsSpec

/-! # New entities are announced

    An entity is announced in the window in which it was created, when the effects of the
    outermost update are applied.  The window must be there still: the update that created
    the entity may close it first, and so may the first of two observers. -/

open Exec

namespace Gpui

open List

namespace Windows

namespace State

variable {T C : Type}

/-- A window is closed only while no entity that was created in it is to be announced, and
    no observer of one that is being announced is left. -/
def Spares (s : State T C) : Action T C → Prop
  | .returns => ∀ id stack, s.stack = .window id true :: stack →
      (∀ entity tid, .entityCreated entity tid (some id) ∉ s.pendingEffects) ∧
      ∀ entity tid called remaining kept,
        .announce entity tid (some id) called remaining kept ∈ stack →
          ∀ observer ∈ remaining, s.newEntityObservers.dropped observer.1 = true
  | _ => True

/-- The windows of the announcements that are to come are open. -/
structure Announceable (s : State T C) : Prop where
  pending : ∀ entity tid id, .entityCreated entity tid (some id) ∈ s.pendingEffects →
    s.windows id ≠ none
  announced : ∀ entity tid id called remaining kept,
    .announce entity tid (some id) called remaining kept ∈ s.stack →
      ∀ observer ∈ remaining, s.newEntityObservers.dropped observer.1 = false →
        s.windows id ≠ none
  /-- A dropped observer stays dropped, since its id is not given out again. -/
  observers : s.newEntityObservers.Inv
  handles : ∀ entity tid window called remaining kept,
    .announce entity tid window called remaining kept ∈ s.stack →
      ∀ observer ∈ called.toList ++ remaining ++ kept,
        s.newEntityObservers.handles observer.1 = some tid

variable {s s' : State T C} {id entity : Nat} {stack : List (Frame T C)} {removed : Bool}
variable {tid : T} {window : Option Nat} {called : Option (Nat × C)}
variable {remaining kept : List (Nat × C)}

theorem mem_stack {frame other : Frame T C} (hstack : s.stack = frame :: stack)
    (hmem : other ∈ stack) : other ∈ s.stack := by
  rw [hstack]
  exact mem_cons_of_mem _ hmem

/-- A step that adds no announcement and closes no window. -/
theorem Announceable.same (h : s.Announceable)
    (hpending : ∀ entity tid id, .entityCreated entity tid (some id) ∈ s'.pendingEffects →
      .entityCreated entity tid (some id) ∈ s.pendingEffects)
    (hwindows : ∀ id, s.windows id ≠ none → s'.windows id ≠ none)
    (hstack : ∀ entity tid window called remaining kept,
      .announce entity tid window called remaining kept ∈ s'.stack →
        .announce entity tid window called remaining kept ∈ s.stack)
    (hobservers : s'.newEntityObservers = s.newEntityObservers) : s'.Announceable where
  pending := fun entity tid id hmem => hwindows id (h.pending entity tid id (hpending _ _ _ hmem))
  announced := by
    intro entity tid id called remaining kept hmem observer hobserver hdropped
    rw [hobservers] at hdropped
    exact hwindows id (h.announced _ _ _ _ _ _ (hstack _ _ _ _ _ _ hmem) observer hobserver hdropped)
  observers := by
    rw [hobservers]
    exact h.observers
  handles := by
    rw [hobservers]
    intro entity tid window called remaining kept hmem
    exact h.handles _ _ _ _ _ _ (hstack _ _ _ _ _ _ hmem)

/-- Only a window whose place changes can be gone after a step. -/
theorem update_ne_none {windows : Nat → Option Slot} {slot : Slot} :
    ∀ other, windows other ≠ none → Function.update windows id (some slot) other ≠ none := by
  intro other hother
  by_cases heq : other = id
  · rw [heq, Function.update_self]
    exact Option.some_ne_none _
  · rw [Function.update_of_ne heq]
    exact hother

section

variable (h : s.Announceable)
include h

/-- A call that announces nothing starts. -/
theorem Announceable.pushes {frame : Frame T C} (hframe : frame = .handler ∨ frame = .update)
    (hstack : s'.stack = frame :: s.stack) (hpending : s'.pendingEffects = s.pendingEffects)
    (hwindows : s'.windows = s.windows)
    (hobservers : s'.newEntityObservers = s.newEntityObservers) : s'.Announceable := by
  refine h.same (by simp [hpending]) (by simp [hwindows]) ?_ hobservers
  · intro entity tid window called remaining kept hmem
    rw [hstack] at hmem
    obtain heq | hmem := mem_cons.1 hmem
    · obtain rfl | rfl := hframe
      · cases heq
      · cases heq
    · exact hmem

/-- A call returns. -/
theorem Announceable.pops {frame : Frame T C} (hstack : s.stack = frame :: s'.stack)
    (hpending : s'.pendingEffects = s.pendingEffects) (hwindows : s'.windows = s.windows)
    (hobservers : s'.newEntityObservers = s.newEntityObservers) : s'.Announceable :=
  h.same (by simp [hpending]) (by simp [hwindows]) (fun _ _ _ _ _ _ => mem_stack hstack) hobservers

theorem Announceable.startUpdate : s.startUpdate.Announceable :=
  h.pushes (.inr rfl) rfl rfl rfl rfl

theorem Announceable.takeWindow (htake : s.takeWindow id = some s') : s'.Announceable := by
  obtain ⟨removed, _, rfl⟩ := takeWindow_eq_some htake
  refine h.same (fun _ _ _ hmem => hmem) update_ne_none ?_ rfl
  intro entity tid window called remaining kept hmem
  cases hmem with
  | tail _ hmem =>
    cases hmem with
    | tail _ hmem => exact hmem

theorem Announceable.updateWindowId (id : Nat) : (s.updateWindowId id).Announceable := by
  unfold State.updateWindowId
  cases htake : s.takeWindow id with
  | none => exact h.startUpdate
  | some s' => exact h.takeWindow htake

theorem Announceable.finishUpdate (hstack : s.stack = .update :: stack) :
    (s.finishUpdate stack).Announceable := by
  unfold State.finishUpdate
  split
  · refine h.same (fun _ _ _ hmem => hmem) (fun _ hid => hid) ?_ rfl
    intro entity tid window called remaining kept hmem
    cases hmem with
    | tail _ hmem =>
      cases hmem with
      | tail _ hmem => exact mem_stack hstack hmem
  · exact h.pops hstack rfl rfl rfl

/-- The update of a window ends; it is closed only where that is spared. -/
theorem Announceable.trail (hspares : Spares s .returns)
    (hstack : s.stack = .window id removed :: stack) (htrail : s.trail id removed stack = .ok s') :
    s'.Announceable := by
  unfold State.trail at htrail
  dsimp only at htrail
  split at htrail
  · rename_i hremoved
    cases htrail
    rw [hremoved] at hstack
    obtain ⟨hpending, hannounced⟩ := hspares id stack hstack
    refine ⟨?_, ?_, h.observers, ?_⟩
    · intro entity tid other hmem
      show Function.update s.windows id none other ≠ none
      have hother : other ≠ id := by
        rintro rfl
        exact hpending entity tid hmem
      rw [Function.update_of_ne hother]
      exact h.pending entity tid other hmem
    · intro entity tid other called remaining kept hmem observer hobserver hdropped
      have hbelow : .announce entity tid (some other) called remaining kept ∈ stack := by
        cases hmem with
        | tail _ hmem => exact hmem
      show Function.update s.windows id none other ≠ none
      have hother : other ≠ id := by
        rintro rfl
        have hgone := hannounced entity tid called remaining kept hbelow observer hobserver
        have hthere : s.newEntityObservers.dropped observer.1 = false := hdropped
        rw [hgone] at hthere
        cases hthere
      rw [Function.update_of_ne hother]
      exact h.announced entity tid other called remaining kept (mem_stack hstack hbelow) observer
        hobserver hdropped
    · intro entity tid window called remaining kept hmem
      apply h.handles entity tid window called remaining kept
      cases hmem with
      | tail _ hmem => exact mem_stack hstack hmem
  · split at htrail
    · cases htrail
      exact h.same (fun _ _ _ hmem => hmem) update_ne_none (fun _ _ _ _ _ _ => mem_stack hstack) rfl
    · split at htrail
      · cases htrail
      · cases htrail
        exact h.pops hstack rfl rfl rfl

theorem Announceable.opened {drawing : Bool}
    (hstack : s.stack = .opening id removed drawing :: stack)
    (hopened : s.opened id removed drawing stack = .ok s') : s'.Announceable := by
  unfold State.opened at hopened
  split at hopened
  · split at hopened
    · cases hopened
    · cases hopened
      exact h.same (fun _ _ _ hmem => hmem) update_ne_none (fun _ _ _ _ _ _ => mem_stack hstack) rfl
  · cases hopened
    refine h.same ?_ (fun _ hid => hid) ?_ rfl
    · intro entity tid id hmem
      simpa using hmem
    · intro entity tid window called remaining kept hmem
      cases hmem with
      | tail _ hmem => exact mem_stack hstack hmem

theorem Announceable.markRemoved (id : Nat) :
    { s with stack := s.stack.map (markRemoved id) }.Announceable := by
  refine h.same (fun _ _ _ hmem => hmem) (fun _ hid => hid) ?_ rfl
  intro entity tid window called remaining kept hmem
  exact (mem_markRemoved (fun _ => rfl)).1 hmem

/-- The pass goes on over observers that are a part of those it had. -/
theorem Announceable.announceFrame
    (hstack : s.stack = .announce entity tid window called remaining kept :: stack)
    {called' : Option (Nat × C)} {remaining' kept' : List (Nat × C)}
    (hremaining : ∀ observer ∈ remaining', observer ∈ remaining)
    (hall : ∀ observer ∈ called'.toList ++ remaining' ++ kept',
      observer ∈ called.toList ++ remaining ++ kept) :
    { s with
      stack := .announce entity tid window called' remaining' kept' :: stack }.Announceable where
  pending := h.pending
  announced := by
    intro e t id c r k hmem observer hobserver hdropped
    cases hmem with
    | head =>
      refine h.announced entity tid id called remaining kept ?_ observer
        (hremaining observer hobserver) hdropped
      rw [hstack]
      exact mem_cons_self
    | tail _ hmem =>
      exact h.announced e t id c r k (mem_stack hstack hmem) observer hobserver hdropped
  observers := h.observers
  handles := by
    intro e t w c r k hmem observer hobserver
    cases hmem with
    | head =>
      refine h.handles entity tid window called remaining kept ?_ observer (hall observer hobserver)
      rw [hstack]
      exact mem_cons_self
    | tail _ hmem => exact h.handles e t w c r k (mem_stack hstack hmem) observer hobserver

end

theorem Inv.trail_ne_error (h : s.Inv) (hstack : s.stack = .window id removed :: stack)
    (e : WindowPanic) :
    s.trail id removed stack ≠ .error e := by
  have htaken := (h.holding.taken id).2 (by rw [hstack]; exact mem_cons_self)
  intro herror
  unfold State.trail at herror
  dsimp only at herror
  rw [htaken] at herror
  split at herror
  · cases herror
  · cases herror

theorem Inv.opened_ne_error (h : s.Inv) {drawing : Bool}
    (hstack : s.stack = .opening id removed drawing :: stack)
    (e : WindowPanic) : s.opened id removed drawing stack ≠ .error e := by
  have htaken := (h.holding.taken id).2 (by rw [hstack]; exact mem_cons_self)
  intro herror
  unfold State.opened at herror
  rw [htaken] at herror
  split at herror
  · cases herror
  · cases herror

/-- An entity is created: the window that its effect records is on the update stack, and so it
    is open. -/
theorem Announceable.newEntity (h : s.Announceable) (hinv : s.Inv)
    (entity : Nat) (tid : T) : (s.newEntity entity tid).Announceable := by
  refine ⟨?_, h.announced, h.observers, h.handles⟩
  intro e t id hmem
  obtain hmem | hmem := mem_append.1 hmem
  · exact h.pending e t id hmem
  · rw [mem_singleton, Effect.entityCreated.injEq] at hmem
    have hupdated : id ∈ s.windowUpdateStack := mem_of_mem_head? hmem.2.2.symm
    rw [hinv.holding.updateStack] at hupdated
    show s.windows id ≠ none
    rw [(hinv.holding.taken id).2 (updating_subset _ id hupdated)]
    exact Option.some_ne_none _

variable [DecidableEq T]

/-- What code does to the observers. -/
theorem Announceable.observe (h : s.Announceable) (op : SubscriberSet.Op T C) :
    { s with newEntityObservers := s.newEntityObservers.apply op }.Announceable := by
  have holder := (SubscriberSet.grows_apply h.observers op).toOlder
  refine ⟨h.pending, ?_, holder.inv, ?_⟩
  · intro entity tid id called remaining kept hmem observer hobserver hdropped
    apply h.announced entity tid id called remaining kept hmem observer hobserver
    have hhandle := h.handles _ _ _ _ _ _ hmem observer (by simp [hobserver])
    have hissued := h.observers.issued _ _ hhandle
    cases hthere : s.newEntityObservers.dropped observer.1 with
    | false => rfl
    | true =>
      have hgone := holder.dropped _ hissued hthere
      have hnot : (s.newEntityObservers.apply op).dropped observer.1 = false := hdropped
      rw [hgone] at hnot
      cases hnot
  · intro entity tid window called remaining kept hmem observer hobserver
    have hhandle := h.handles _ _ _ _ _ _ hmem observer hobserver
    show (s.newEntityObservers.apply op).handles observer.1 = some tid
    rw [holder.handles _ (h.observers.issued _ _ hhandle), hhandle]

/-- An effect is applied: its window is open, and its observers are taken out. -/
theorem Announceable.flushEffects (h : s.Announceable)
    (hstack : s.stack = .flush :: stack) : (s.flushEffects stack).Announceable := by
  unfold State.flushEffects
  split
  · exact h.pops hstack rfl rfl rfl
  · rename_i pendingEffects hpending
    refine h.same ?_ (fun _ hid => hid) ?_ rfl
    · intro entity tid id hmem
      rw [hpending]
      exact mem_cons_of_mem _ hmem
    · intro entity tid window called remaining kept hmem
      cases hmem with
      | tail _ hmem => exact hmem
  · rename_i entity tid window pendingEffects hpending
    have hrest : ∀ e t id, .entityCreated e t (some id) ∈ pendingEffects →
        .entityCreated e t (some id) ∈ s.pendingEffects := by
      intro e t id hmem
      rw [hpending]
      exact mem_cons_of_mem _ hmem
    unfold State.applyEntityCreated State.startAnnouncement
    split
    iterate 2 exact h.same hrest (fun _ hid => hid) (fun _ _ _ _ _ _ hmem => hmem) rfl
    · rename_i subscribers hsubscribers
      refine ⟨?_, ?_, SubscriberSet.inv_setEntry_placeholder h.observers tid, ?_⟩
      · intro e t id hmem
        exact h.pending e t id (hrest e t id hmem)
      · intro e t id called remaining kept hmem observer hobserver hdropped
        cases hmem with
        | head =>
          apply h.pending entity tid id
          rw [hpending]
          exact mem_cons_self
        | tail _ hmem => exact h.announced _ _ _ _ _ _ hmem observer hobserver hdropped
      · intro e t w called remaining kept hmem observer hobserver
        cases hmem with
        | head =>
          have hobserver : observer ∈ subscribers.toList := by simpa using hobserver
          apply h.observers.handle
          refine ⟨subscribers, hsubscribers, ?_⟩
          rw [← Std.TreeMap.mem_keys, ← Std.TreeMap.map_fst_toList_eq_keys]
          exact mem_map_of_mem hobserver
        | tail _ hmem => exact h.handles _ _ _ _ _ _ hmem observer hobserver

theorem Announceable.announce (h : s.Announceable)
    (hstack : s.stack = .announce entity tid window called remaining kept :: stack)
    (hannounce : s.announce entity tid window called remaining kept stack = .ok s') :
    s'.Announceable := by
  unfold State.announce at hannounce
  split at hannounce
  · rename_i subscriberId callback
    cases hannounce
    apply h.announceFrame hstack (fun _ hmem => hmem)
    intro observer hobserver
    split at hobserver
    · simp only [Option.toList_none, nil_append, mem_append] at hobserver
      simp [hobserver]
    · simp only [Option.toList_none, nil_append, mem_append, mem_singleton]
        at hobserver
      simp only [Option.toList_some, mem_append, mem_singleton]
      tauto
  · unfold State.announceNext at hannounce
    split at hannounce
    · cases hannounce
      -- the observers that stay are put back
      have hkept : ∀ id ∈ kept.map Prod.fst, s.newEntityObservers.handles id = some tid := by
        intro id hid
        obtain ⟨observer, hobserver, rfl⟩ := mem_map.1 hid
        refine h.handles entity tid window none [] kept ?_ observer (by simp [hobserver])
        rw [hstack]
        exact mem_cons_self
      refine ⟨h.pending, ?_, SubscriberSet.inv_mergeBack h.observers hkept, ?_⟩
      · intro e t id c r k hmem
        exact h.announced e t id c r k (mem_stack hstack hmem)
      · intro e t w c r k hmem
        exact h.handles e t w c r k (mem_stack hstack hmem)
    · rename_i subscriberId callback rest
      dsimp only at hannounce
      split at hannounce
      · cases hannounce
        apply h.announceFrame hstack (fun _ hmem => mem_cons_of_mem _ hmem)
        intro observer hobserver
        simp only [Option.toList_none, nil_append, mem_append, mem_singleton]
          at hobserver
        simp only [Option.toList_none, nil_append, mem_append, mem_cons]
        tauto
      · split at hannounce
        · cases hannounce
          apply h.announceFrame hstack (fun _ hmem => mem_cons_of_mem _ hmem)
          intro observer hobserver
          simp only [Option.toList_none, nil_append, mem_append] at hobserver
          simp only [Option.toList_none, nil_append, mem_append, mem_cons]
          tauto
        · have hcalled : { s with
              stack := .announce entity tid window (some (subscriberId, callback)) rest kept ::
                stack }.Announceable := by
            apply h.announceFrame hstack (fun _ hmem => mem_cons_of_mem _ hmem)
            intro observer hobserver
            simp only [Option.toList_some, mem_append, mem_singleton] at hobserver
            simp only [Option.toList_none, nil_append, mem_append, mem_cons]
            tauto
          split at hannounce
          · cases hannounce
            refine hcalled.same (fun _ _ _ hmem => hmem) (fun _ hid => hid) ?_ rfl
            intro e t w c r k hmem
            cases hmem with
            | tail _ hmem => exact hmem
          · split at hannounce
            · rename_i htake
              cases hannounce
              exact hcalled.takeWindow htake
            · cases hannounce

theorem Announceable.step {a : Action T C} (h : s.Announceable) (hinv : s.Inv)
    (ha : Spares s a) (hstep : s.step a = some (.ok s')) : s'.Announceable := by
  unfold State.step at hstep
  cases a with
  | startUpdate =>
    obtain ⟨_, rfl⟩ := Machine.guarded_ok_iff.1 hstep
    exact h.startUpdate
  | reserveEntity | recordEntitiesAccessed _ _ | ensureWindow _ _ =>
    obtain ⟨_, rfl⟩ := Machine.guarded_ok_iff.1 hstep
    exact ⟨h.pending, h.announced, h.observers, h.handles⟩
  | newEntity entity tid =>
    dsimp only at hstep
    split at hstep
    · simp only [Option.ite_none_right_eq_some, Option.some.injEq, Except.ok.injEq] at hstep
      obtain ⟨_, rfl⟩ := hstep
      exact h.newEntity hinv entity tid
    · cases hstep
  | pushEffect =>
    obtain ⟨_, rfl⟩ := Machine.guarded_ok_iff.1 hstep
    refine h.same ?_ (fun _ hid => hid) (fun _ _ _ _ _ _ hmem => hmem) rfl
    intro entity tid id hmem
    simpa using hmem
  | observe op =>
    obtain ⟨_, rfl⟩ := Machine.guarded_ok_iff.1 hstep
    exact h.observe op
  | openWindow =>
    obtain ⟨_, rfl⟩ := Machine.guarded_ok_iff.1 hstep
    refine h.same (fun _ _ _ hmem => hmem) update_ne_none ?_ rfl
    intro entity tid window called remaining kept hmem
    cases hmem with
    | tail _ hmem =>
      cases hmem with
      | tail _ hmem => exact hmem
  | openWindowFails =>
    obtain ⟨_, rfl⟩ := Machine.guarded_ok_iff.1 hstep
    have hstart := h.startUpdate
    exact ⟨hstart.pending, hstart.announced, hstart.observers, hstart.handles⟩
  | updateWindow id =>
    obtain ⟨_, rfl⟩ := Machine.guarded_ok_iff.1 hstep
    exact h.updateWindowId id
  | withWindow entity =>
    obtain ⟨_, rfl⟩ := Machine.guarded_ok_iff.1 hstep
    unfold State.withWindow
    split
    · exact h
    · exact h.updateWindowId _
  | removeWindow id =>
    obtain ⟨_, rfl⟩ := Machine.guarded_ok_iff.1 hstep
    exact h.markRemoved id
  | returns =>
    dsimp only at hstep
    split at hstep
    · rename_i stack hstack
      cases hstep
      exact h.finishUpdate hstack
    · rename_i id removed stack hstack
      exact h.trail ha hstack (Option.some.inj hstep)
    · rename_i id removed drawing stack hstack
      exact h.opened hstack (Option.some.inj hstep)
    · rename_i stack hstack
      cases hstep
      exact h.pops hstack rfl rfl rfl
    · cases hstep
  | releaseEntity entity =>
    dsimp only at hstep
    split at hstep
    · simp only [Option.ite_none_right_eq_some, Option.some.injEq, Except.ok.injEq] at hstep
      obtain ⟨_, rfl⟩ := hstep
      exact h.pushes (.inl rfl) rfl rfl rfl rfl
    · cases hstep
  | releaseFocusHandles =>
    dsimp only at hstep
    split at hstep
    · cases hstep
      exact h.pushes (.inl rfl) rfl rfl rfl rfl
    · cases hstep
  | next =>
    dsimp only at hstep
    split at hstep
    · rename_i stack hstack
      cases hstep
      exact h.flushEffects hstack
    · rename_i hstack
      exact h.announce hstack (Option.some.inj hstep)
    · rename_i stack hstack
      cases hstep
      exact h.pops hstack rfl rfl rfl
    · cases hstep

/-! ### No panic -/

/-- The window of an announcement is open, and no call has it. -/
theorem Announceable.announce_ne_error (h : s.Announceable) (hinv : s.Inv)
    (hstack : s.stack = .announce entity tid window called remaining kept :: stack)
    (e : WindowPanic) : s.announce entity tid window called remaining kept stack ≠ .error e := by
  intro herror
  unfold State.announce at herror
  split at herror
  · cases herror
  · unfold State.announceNext at herror
    split at herror
    · cases herror
    · rename_i subscriberId callback rest
      dsimp only at herror
      split at herror
      · cases herror
      · split at herror
        · cases herror
        · rename_i hdropped
          split at herror
          · cases herror
          · rename_i id
            have hopen : s.windows id ≠ none := by
              refine h.announced entity tid id none ((subscriberId, callback) :: rest) kept ?_
                (subscriberId, callback) mem_cons_self (by simpa using hdropped)
              rw [hstack]
              exact mem_cons_self
            have hcalls := hinv.calls
            rw [hstack] at hcalls
            have hoff : s.windows id ≠ some .taken := by
              apply hinv.off_stack
              rw [hstack, hcalls.announce.1]
              rfl
            unfold State.takeWindow at herror
            cases hslot : s.windows id with
            | none => exact hopen hslot
            | some slot =>
              cases slot with
              | taken => exact hoff hslot
              | kept removed =>
                rw [hslot] at herror
                cases herror

theorem Announceable.step_ne_error (h : s.Announceable) (hinv : s.Inv)
    (a : Action T C) (e : WindowPanic) : s.step a ≠ some (.error e) := by
  intro hstep
  unfold State.step at hstep
  cases a with
  | returns =>
    dsimp only at hstep
    split at hstep
    · cases hstep
    · rename_i hstack
      exact hinv.trail_ne_error hstack e (Option.some.inj hstep)
    · rename_i hstack
      exact hinv.opened_ne_error hstack e (Option.some.inj hstep)
    · cases hstep
    · cases hstep
  | next =>
    dsimp only at hstep
    split at hstep
    · cases hstep
    · rename_i hstack
      exact h.announce_ne_error hinv hstack e (Option.some.inj hstep)
    · cases hstep
    · cases hstep
  | newEntity _ _ | releaseEntity _ =>
    dsimp only at hstep
    split at hstep
    · simp at hstep
    · cases hstep
  | releaseFocusHandles =>
    dsimp only at hstep
    split at hstep
    · cases hstep
    · cases hstep
  | _ => simp at hstep

theorem announceable_inductive :
    (machine T C).Inductive Spares (fun s => s.Inv ∧ s.Announceable) where
  start := by
    refine ⟨inv_start, ?_, ?_, SubscriberSet.inv_new, ?_⟩
    · intro entity tid id hmem
      cases hmem
    · intro entity tid id called remaining kept hmem
      cases hmem
    · intro entity tid window called remaining kept hmem
      cases hmem
  step := by
    intro s a s' h ha hstep
    exact ⟨h.1.step hstep, h.2.step h.1 ha hstep⟩

/-- No run panics in which a window is closed only while no entity that was created in it
    is to be announced. -/
theorem announces {s : State T C} (h : (machine T C).Reaches Spares s) :
    ∀ a e, (machine T C).step s a ≠ some (.error e) := by
  obtain ⟨hinv, hannounceable⟩ := announceable_inductive.holds h
  intro a e
  exact hannounceable.step_ne_error hinv a e

/-- The step closes no window. -/
def leavesOpen (s : State T C) : Action T C → Bool
  | .returns =>
      match s.stack with
      | .window _ removed :: _ => !removed
      | _ => true
  | _ => true

omit [DecidableEq T] in
theorem spares_of_leavesOpen {s : State T C} {a : Action T C} (h : s.leavesOpen a = true) :
    Spares s a := by
  cases a with
  | returns =>
    intro id stack hstack
    simp [leavesOpen, hstack] at h
  | _ => trivial

/-- The observer of an entity that was created in a window is about to close the window. -/
theorem announces_inWindow :
    ∃ s, (machine Nat Unit).Reaches Spares s ∧
      s.stack = [.window 0 true, .update, .announce 0 0 (some 0) (some (0, ())) [] [], .flush,
        .finishUpdate] ∧
      ∀ a e, (machine Nat Unit).step s a ≠ some (.error e) := by
  let actions : List (Action Nat Unit) :=
    [.startUpdate, .observe (.insert 0 ()), .observe (.activate 0), .returns, .next, .next,
      .openWindow, .returns, .returns, .returns, .next, .returns, .next, .next,
      .updateWindow 0, .startUpdate, .reserveEntity, .newEntity 0 0, .returns, .returns,
      .returns, .next, .next, .removeWindow 0]
  have hrun : ∃ s, (machine Nat Unit).run start actions = some (.ok s) ∧
      s.stack = [.window 0 true, .update, .announce 0 0 (some 0) (some (0, ())) [] [], .flush,
        .finishUpdate] := ⟨_, rfl, rfl⟩
  obtain ⟨s, hrun, hstack⟩ := hrun
  have hmeets : (machine Nat Unit).Meets (fun s a => s.leavesOpen a = true) start actions := by
    decide +kernel
  have h := (Machine.Reaches.start.run hmeets hrun).mono (fun _ _ => spares_of_leavesOpen)
  exact ⟨s, h, hstack, announces h⟩

/-- The update that creates an observed entity closes its window. -/
theorem announcement_panics :
    ¬ ∀ s : State Nat Unit, (machine Nat Unit).Reaches (fun _ _ => True) s →
      ∀ a e, (machine Nat Unit).step s a ≠ some (.error e) := by
  intro h
  have hrun : ∃ s, (machine Nat Unit).run start
      [.startUpdate, .observe (.insert 0 ()), .observe (.activate 0), .returns, .next, .next,
        .openWindow, .returns, .returns, .returns, .next, .returns, .next, .next,
        .updateWindow 0, .startUpdate, .reserveEntity, .newEntity 0 0, .returns, .removeWindow 0,
        .returns, .returns, .returns, .next] = some (.ok s) ∧
      (machine Nat Unit).step s .next = some (.error .expectWindow) := by
    refine ⟨_, rfl, ?_⟩
    rfl
  obtain ⟨s, hrun, herror⟩ := hrun
  exact h s (Machine.Reaches.start.run (.of_forall (fun _ _ _ => trivial) _) hrun) _ _ herror

end State

end Windows

end Gpui
