import Gpui.Window.Assets

/-! # Which of the waiting views are woken

    A call registers its view only if it makes the task.  So a view that finds the task in
    the table is woken exactly if it waits for this task already, and one that was
    registered in a window is not woken if this window is closed before. -/

namespace Gpui

open List

namespace Assets

variable {Out : Type}

namespace State

/-! ### Section 1: The property and the condition -/

/-- A view that was handed `None` for a task, still exists, and was not notified since the
    task is done. -/
def Waits (s : State Out) (task view : Nat) : Prop :=
  (task, view) ∈ s.asked ∧ view ∉ s.released ∧ s.woken task view = false

/-- Every view that waits for a task that is done is still about to be notified: a spawned
    task has to go on for it, or a callback to be called in the next frame. -/
def Good (s : State Out) : Prop :=
  ∀ task view, s.Waits task view → (s.output task).isSome →
    (∃ window, ⟨task, window, view⟩ ∈ s.waiting) ∨
      ∃ window, (window, view) ∈ s.nextFrameCallbacks

/-- A view is about to be notified in an open window. -/
def OnItsWay (s : State Out) (task view window : Nat) : Prop :=
  window ∉ s.closed ∧ (⟨task, window, view⟩ ∈ s.waiting ∨
    (s.output task).isSome ∧ (window, view) ∈ s.nextFrameCallbacks)

/-- A view that finds a task in a table that is not done is registered for this task
    already, in an open window. -/
def Registered (s : State Out) (shared : Option Nat) (view : Nat) : Prop :=
  ∀ task, shared = some task → s.output task = none →
    ∃ window, window ∉ s.closed ∧ ⟨task, window, view⟩ ∈ s.waiting

/-- The task of an item of an image cache that is loading. -/
def sharedImage (s : State Out) (cache hash : Nat) : Option Nat :=
  match s.images.lookup (cache, hash) with
  | some (.loading task) => some task
  | _                    => none

/-- A task is shared only by views that are registered for it, and a window is closed only
    while every view that waits is about to be notified in another one. -/
def Allowed (s : State Out) : Action Out → Prop
  | .useAsset id _ _ view     => s.Registered (s.loadingAssets.lookup id) view
  | .load cache hash _ _ view => s.Registered (s.sharedImage cache hash) view
  | .closeWindow window       => ∀ task view, s.Waits task view →
      ∃ other, other ≠ window ∧ s.OnItsWay task view other
  | _ => True

/-! ### Section 2: What the calls do -/

variable {s s' : State Out} {task view window : Nat} {waiter : Waiter} {shared : Option Nat}
variable {a : Action Out}

theorem held_iff : s.held task = true ↔
    (∃ id, (id, task) ∈ s.loadingAssets) ∨ (∃ key, (key, .loading task) ∈ s.images) ∨
      ∃ waiter ∈ s.waiting, waiter.task = task := by
  unfold held
  rw [Bool.or_eq_true, Bool.or_eq_true, or_assoc]
  refine or_congr ?_ (or_congr ?_ ?_)
  · simp
  · rw [any_eq_true]
    constructor
    · intro h
      obtain ⟨⟨key, item⟩, hmem, hitem⟩ := h
      cases item with
      | loading t =>
        have ht : t = task := by simpa using hitem
        rw [ht] at hmem
        exact ⟨key, hmem⟩
      | loaded res => cases hitem
    · intro h
      obtain ⟨key, hmem⟩ := h
      exact ⟨_, hmem, by simp⟩
  · simp

/-- The tables may change and tasks may be made, but nobody is registered or answered. -/
structure Quiet (s s' : State Out) : Prop where
  nextTask : s.nextTask ≤ s'.nextTask
  output : ∀ task, task < s.nextTask ∨ s'.nextTask ≤ task → s'.output task = s.output task
  held : ∀ task, s'.held task = true → s.held task = true ∨ task < s'.nextTask
  waiting : s'.waiting = s.waiting
  nextFrameCallbacks : s'.nextFrameCallbacks = s.nextFrameCallbacks
  closed : s'.closed = s.closed
  released : s'.released = s.released
  asked : s'.asked = s.asked
  woken : s'.woken = s.woken

theorem Quiet.refl (s : State Out) : s.Quiet s where
  nextTask := Nat.le_refl _
  output := fun _ _ => rfl
  held := fun _ h => .inl h
  waiting := rfl
  nextFrameCallbacks := rfl
  closed := rfl
  released := rfl
  asked := rfl
  woken := rfl

variable {loadingAssets : List (AssetId × Nat)} {images : List ((Nat × Nat) × ImageCacheItem Out)}
  {id : AssetId} {cache hash : Nat} {task view : Nat}

/-- The tables hold no more tasks than before. -/
theorem Quiet.tables (s : State Out)
    (hassets : ∀ id task, (id, task) ∈ loadingAssets → (id, task) ∈ s.loadingAssets)
    (himages : ∀ key task, (key, .loading task) ∈ images → ∃ key, (key, .loading task) ∈ s.images) :
    s.Quiet { s with loadingAssets := loadingAssets, images := images } where
  nextTask := Nat.le_refl _
  output := fun _ _ => rfl
  held := by
    intro task h
    refine .inl ?_
    rw [held_iff] at h ⊢
    obtain ⟨id, hid⟩ | ⟨key, hkey⟩ | hwaiter := h
    · exact .inl ⟨id, hassets id task hid⟩
    · exact .inr (.inl (himages key task hkey))
    · exact .inr (.inr hwaiter)
  waiting := rfl
  nextFrameCallbacks := rfl
  closed := rfl
  released := rfl
  asked := rfl
  woken := rfl

/-- A new task, held by the tables. -/
theorem Quiet.startTask (s : State Out) (ready : Option Out)
    (hassets : ∀ id task, (id, task) ∈ loadingAssets → (id, task) ∈ s.loadingAssets ∨ task = s.nextTask)
    (himages : ∀ key task, (key, .loading task) ∈ images → (key, .loading task) ∈ s.images ∨ task = s.nextTask)
    : s.Quiet { s.startTask ready with loadingAssets := loadingAssets, images := images } where
  nextTask := Nat.le_succ _
  output := by
    intro task htask
    have hne : task ≠ s.nextTask := by
      intro heq
      cases htask with
      | inl hlt => omega
      | inr hle =>
        have hle : s.nextTask + 1 ≤ task := hle
        omega
    exact if_neg hne
  held := by
    intro task h
    rw [held_iff] at h
    have hnew : task = s.nextTask → task < s.nextTask + 1 := fun heq => by omega
    obtain ⟨id, hid⟩ | ⟨key, hkey⟩ | hwaiter := h
    · exact (hassets id task hid).imp (fun hmem => held_iff.2 (.inl ⟨id, hmem⟩)) hnew
    · exact (himages key task hkey).imp (fun hmem => held_iff.2 (.inr (.inl ⟨key, hmem⟩))) hnew
    · exact .inl (held_iff.2 (.inr (.inr hwaiter)))
  waiting := rfl
  nextFrameCallbacks := rfl
  closed := rfl
  released := rfl
  asked := rfl
  woken := rfl

/-- What a call for a view leaves: it was answered, or its view is registered for a new
    task, or it shares a task and nobody is registered. -/
inductive Called (s : State Out) (window view : Nat) (shared : Option Nat) : State Out → Prop where
  | answered {s₁ : State Out} : s.Quiet s₁ →
      (∀ task, shared = some task → (s.output task).isSome) → Called s window view shared s₁
  | first {s₁ : State Out} (task : Nat) : s.Quiet s₁ → shared = none → task < s₁.nextTask →
      Called s window view shared ((s₁.spawnWaiter ⟨task, window, view⟩).handNone task view)
  | shares {s₁ : State Out} (task : Nat) : s.Quiet s₁ → shared = some task →
      s.output task = none → s₁.output task = none → s₁.held task = true →
      Called s window view shared (s₁.handNone task view)

theorem fetchAsset_some (ready : Option Out) (h : s.loadingAssets.lookup id = some task) :
    s.fetchAsset id ready = (s, task, false) := by
  unfold fetchAsset
  rw [h]

theorem fetchAsset_none (ready : Option Out) (h : s.loadingAssets.lookup id = none) :
    s.fetchAsset id ready =
      ({ s.startTask ready with loadingAssets := (id, s.nextTask) :: s.loadingAssets },
        s.nextTask, true) := by
  unfold fetchAsset
  rw [h]

theorem mem_of_lookup {κ ν : Type} [BEq κ] [LawfulBEq κ] {entries : List (κ × ν)} {key : κ}
    {value : ν} (h : entries.lookup key = some value) : (key, value) ∈ entries := by
  obtain ⟨before, after, heq, _⟩ := lookup_eq_some_iff.1 h
  rw [heq]
  simp

theorem quiet_fetchAsset (s : State Out) (id : AssetId) (ready : Option Out) :
    s.Quiet (s.fetchAsset id ready).1 := by
  cases hlookup : s.loadingAssets.lookup id with
  | some task =>
    rw [fetchAsset_some ready hlookup]
    exact .refl s
  | none =>
    rw [fetchAsset_none ready hlookup]
    refine .startTask s ready ?_ (fun _ _ hmem => .inl hmem)
    intro other task hmem
    cases hmem with
    | head => exact .inr rfl
    | tail _ hmem => exact .inl hmem

theorem called_useAsset (s : State Out) (id : AssetId) (ready : Option Out) (window view : Nat) :
    s.Called window view (s.loadingAssets.lookup id) (s.useAsset id ready window view).1 := by
  have hquiet := s.quiet_fetchAsset id ready
  unfold useAsset
  cases hlookup : s.loadingAssets.lookup id with
  | some task =>
    rw [fetchAsset_some ready hlookup]
    dsimp only
    cases hout : s.output task with
    | some out =>
      refine .answered (.refl s) fun other hother => ?_
      cases hother
      rw [hout]
      rfl
    | none =>
      have hheld := held_iff.2 (.inl ⟨id, mem_of_lookup hlookup⟩)
      exact .shares task (.refl s) rfl hout hout hheld
  | none =>
    rw [fetchAsset_none ready hlookup] at hquiet ⊢
    dsimp only
    split
    · exact .answered hquiet fun _ hother => nomatch hother
    · exact .first s.nextTask hquiet rfl (Nat.lt_succ_self _)

theorem sharedImage_loading (h : s.images.lookup (cache, hash) = some (.loading task)) :
    s.sharedImage cache hash = some task := by
  unfold sharedImage
  rw [h]

theorem sharedImage_of_not_loading
    (h : ∀ task, s.images.lookup (cache, hash) ≠ some (.loading task)) :
    s.sharedImage cache hash = none := by
  unfold sharedImage
  split
  · rename_i task hlookup
    exact absurd hlookup (h task)
  · rfl

theorem called_load (s : State Out) (cache hash : Nat) (ready : Option Out) (window view : Nat) :
    s.Called window view (s.sharedImage cache hash) (s.load cache hash ready window view).1 := by
  unfold load
  cases hlookup : s.images.lookup (cache, hash) with
  | none =>
    have hshared : s.sharedImage cache hash = none :=
      sharedImage_of_not_loading fun task => by simp [hlookup]
    refine .first s.nextTask (.startTask s ready (fun _ _ hmem => .inl hmem) ?_) hshared
      (Nat.lt_succ_self _)
    intro key task hmem
    cases hmem with
    | head => exact .inr rfl
    | tail _ hmem => exact .inl hmem
  | some item =>
    cases item with
    | loaded res =>
      have hshared : s.sharedImage cache hash = none :=
        sharedImage_of_not_loading fun task => by simp [hlookup]
      refine .answered (.refl s) fun other hother => ?_
      rw [hshared] at hother
      cases hother
    | loading task =>
      have hmem := mem_of_lookup hlookup
      have hshared := sharedImage_loading hlookup
      unfold ImageCacheItem.get
      dsimp only
      cases hout : s.output task with
      | some res =>
        -- the item keeps the result from now on
        refine .answered (.tables s (fun _ _ hmem => hmem) ?_) ?_
        · intro key other hother
          obtain ⟨entry, hentry, heq⟩ := mem_map.1 hother
          split at heq
          · cases heq
          · rw [heq] at hentry
            exact ⟨key, hentry⟩
        · intro other hother
          rw [hshared] at hother
          cases hother
          rw [hout]
          rfl
      | none =>
        refine .shares task (.tables s (fun _ _ hmem => hmem) ?_) hshared hout hout ?_
        · intro key other hother
          obtain ⟨entry, hentry, heq⟩ := mem_map.1 hother
          split at heq
          · cases heq
            exact ⟨_, hmem⟩
          · rw [heq] at hentry
            exact ⟨key, hentry⟩
        · refine held_iff.2 (.inr (.inl ⟨(cache, hash), ?_⟩))
          exact mem_map.2 ⟨_, hmem, if_pos rfl⟩

/-! ### Section 3: While the condition is met -/

structure Inv (s : State Out) : Prop where
  way : ∀ task view, s.Waits task view → ∃ window, s.OnItsWay task view window
  /-- A view is woken for a task only when it is done. -/
  done : ∀ task view, s.woken task view = true → (s.output task).isSome
  callbacks : ∀ window view, (window, view) ∈ s.nextFrameCallbacks → window ∉ s.closed
  issued : ∀ task, s.held task = true → task < s.nextTask
  fresh : ∀ task, s.nextTask ≤ task → s.output task = none

theorem inv_initial : (State.initial : State Out).Inv where
  way := by
    intro task view h
    cases h.1
  done := by
    intro task view h
    cases h
  callbacks := by
    intro window view h
    cases h
  issued := by
    intro task h
    cases h
  fresh := fun _ _ => rfl

theorem Quiet.isSome (h : s.Quiet s') (hinv : s.Inv)
    (hdone : (s.output task).isSome) : (s'.output task).isSome := by
  have hlt : task < s.nextTask := by
    by_contra hle
    rw [hinv.fresh task (Nat.le_of_not_lt hle)] at hdone
    cases hdone
  rw [h.output task (.inl hlt)]
  exact hdone

theorem Quiet.waits (h : s.Quiet s') :
    s'.Waits task view ↔ s.Waits task view := by
  unfold Waits
  rw [h.asked, h.released, h.woken]

theorem Quiet.onItsWay (h : s.Quiet s') (hinv : s.Inv)
    (hway : s.OnItsWay task view window) : s'.OnItsWay task view window := by
  unfold OnItsWay
  rw [h.closed, h.waiting, h.nextFrameCallbacks]
  exact ⟨hway.1, hway.2.imp id fun hcalled => ⟨h.isSome hinv hcalled.1, hcalled.2⟩⟩

theorem Inv.quiet (hinv : s.Inv) (h : s.Quiet s') : s'.Inv where
  way := by
    intro task view hwaits
    obtain ⟨window, hway⟩ := hinv.way task view (h.waits.1 hwaits)
    exact ⟨window, h.onItsWay hinv hway⟩
  done := by
    intro task view hwoken
    rw [h.woken] at hwoken
    exact h.isSome hinv (hinv.done task view hwoken)
  callbacks := by
    rw [h.nextFrameCallbacks, h.closed]
    exact hinv.callbacks
  issued := by
    intro task hheld
    cases h.held task hheld with
    | inl hold => exact Nat.lt_of_lt_of_le (hinv.issued task hold) h.nextTask
    | inr hlt => exact hlt
  fresh := by
    intro task hle
    rw [h.output task (.inr hle)]
    exact hinv.fresh task (Nat.le_trans h.nextTask hle)

/-- A view is handed `None` that is about to be notified. -/
theorem Inv.handNone (hinv : s.Inv)
    (hway : ∃ window, s.OnItsWay task view window) : (s.handNone task view).Inv where
  way := by
    intro t v hwaits
    obtain ⟨hasked, hexists, hwoken⟩ := hwaits
    cases hasked with
    | head => exact hway
    | tail _ hasked => exact hinv.way t v ⟨hasked, hexists, hwoken⟩
  done := hinv.done
  callbacks := hinv.callbacks
  issued := hinv.issued
  fresh := hinv.fresh

theorem Inv.spawnWaiter (hinv : s.Inv)
    (hlt : waiter.task < s.nextTask) : (s.spawnWaiter waiter).Inv where
  way := by
    intro task view hwaits
    obtain ⟨window, hopen, hway⟩ := hinv.way task view hwaits
    exact ⟨window, hopen, hway.imp (mem_cons_of_mem _) id⟩
  done := hinv.done
  callbacks := hinv.callbacks
  issued := by
    intro task hheld
    rw [held_iff] at hheld
    obtain hassets | himages | ⟨other, hmem, heq⟩ := hheld
    · exact hinv.issued task (held_iff.2 (.inl hassets))
    · exact hinv.issued task (held_iff.2 (.inr (.inl himages)))
    · cases hmem with
      | head =>
        rw [← heq]
        exact hlt
      | tail _ hmem => exact hinv.issued task (held_iff.2 (.inr (.inr ⟨other, hmem, heq⟩)))
  fresh := hinv.fresh

/-- A call keeps the invariant if the view that shares a task is registered for it. -/
theorem Inv.called (hinv : s.Inv)
    (hcalled : s.Called window view shared s') (hopen : window ∉ s.closed)
    (hregistered : s.Registered shared view) : s'.Inv := by
  cases hcalled with
  | answered hquiet _ => exact hinv.quiet hquiet
  | first task hquiet _ hlt =>
    -- the view itself is registered
    refine ((hinv.quiet hquiet).spawnWaiter hlt).handNone ⟨window, ?_, .inl (mem_cons_self ..)⟩
    rw [← hquiet.closed] at hopen
    exact hopen
  | shares task hquiet hshared hout _ _ =>
    -- an earlier call registered it
    obtain ⟨other, hother, hmem⟩ := hregistered task hshared hout
    exact (hinv.quiet hquiet).handNone ⟨other, hquiet.onItsWay hinv ⟨hother, .inl hmem⟩⟩

theorem Inv.complete (hinv : s.Inv) (out : Out)
    (hheld : s.held task = true) : (s.complete task out).Inv := by
  have hkeeps : ∀ t, (s.output t).isSome → ((s.complete task out).output t).isSome := by
    intro t ht
    show (if t = task then some out else s.output t).isSome
    split
    · rfl
    · exact ht
  refine ⟨?_, ?_, hinv.callbacks, hinv.issued, ?_⟩
  · intro t view hwaits
    obtain ⟨window, hopen, hway⟩ := hinv.way t view hwaits
    exact ⟨window, hopen, hway.imp id fun hcalled => ⟨hkeeps t hcalled.1, hcalled.2⟩⟩
  · intro t view hwoken
    exact hkeeps t (hinv.done t view hwoken)
  · intro t hle
    have hlt := hinv.issued task hheld
    have hne : t ≠ task := by
      intro heq
      have hle : s.nextTask ≤ t := hle
      omega
    show (if t = task then some out else s.output t) = none
    rw [if_neg hne]
    exact hinv.fresh t hle

/-- What goes on is held by nobody else's erasure. -/
theorem held_erase
    (h : ({ s with waiting := s.waiting.erase waiter } : State Out).held task = true) :
    s.held task = true := by
  rw [held_iff] at h ⊢
  obtain hassets | himages | ⟨other, hmem, heq⟩ := h
  · exact .inl hassets
  · exact .inr (.inl himages)
  · exact .inr (.inr ⟨other, mem_of_mem_erase hmem, heq⟩)

theorem wake_closed (h : waiter.window ∈ s.closed) :
    s.wake waiter = { s with waiting := s.waiting.erase waiter } :=
  if_pos h

theorem wake_open (h : waiter.window ∉ s.closed) :
    s.wake waiter = { s with
      waiting := s.waiting.erase waiter
      nextFrameCallbacks := s.nextFrameCallbacks ++ [(waiter.window, waiter.view)] } :=
  if_neg h

theorem Inv.wake (hinv : s.Inv) (hdone : (s.output waiter.task).isSome) : (s.wake waiter).Inv := by
  by_cases hclosed : waiter.window ∈ s.closed
  · rw [wake_closed hclosed]
    refine ⟨?_, hinv.done, hinv.callbacks, fun task h => hinv.issued task (held_erase h), hinv.fresh⟩
    intro task view hwaits
    obtain ⟨window, hopen, hway⟩ := hinv.way task view hwaits
    refine ⟨window, hopen, hway.imp (fun hmem => ?_) id⟩
    -- the one that went on was spawned in another window
    refine (mem_erase_of_ne ?_).2 hmem
    intro heq
    rw [← heq] at hclosed
    exact hopen hclosed
  · rw [wake_open hclosed]
    refine ⟨?_, hinv.done, ?_, fun task h => hinv.issued task (held_erase h), hinv.fresh⟩
    · intro task view hwaits
      obtain ⟨window, hopen, hway⟩ := hinv.way task view hwaits
      refine ⟨window, hopen, ?_⟩
      -- the one that went on is a callback now
      by_cases heq : waiter = ⟨task, window, view⟩
      · rw [heq] at hdone ⊢
        exact .inr ⟨hdone, by simp⟩
      · cases hway with
        | inl hmem => exact .inl ((mem_erase_of_ne fun h => heq h.symm).2 hmem)
        | inr hcalled => exact .inr ⟨hcalled.1, mem_append_left _ hcalled.2⟩
    · intro window view hmem
      cases mem_append.1 hmem with
      | inl hmem => exact hinv.callbacks window view hmem
      | inr hnew =>
        cases mem_singleton.1 hnew
        exact hclosed

/-- The callbacks that are called notify their views, and nothing else changes. -/
theorem foldl_notify (s : State Out) (callbacks : List (Nat × Nat)) :
    callbacks.foldl (fun s callback => s.notify callback.2) s =
      { s with woken := fun task view =>
          s.woken task view || (callbacks.any (fun callback => callback.2 == view) &&
            (s.output task).isSome) } := by
  induction callbacks generalizing s with
  | nil => simp
  | cons callback rest ih =>
    rw [foldl_cons, ih]
    unfold State.notify
    congr 1
    funext task view
    have hswap : (callback.2 == view) = (view == callback.2) := Bool.beq_comm
    rw [any_cons, hswap, Bool.or_assoc, ← Bool.and_or_distrib_right]

theorem frame_eq (s : State Out) (window : Nat) : s.frame window =
    { s with
      nextFrameCallbacks := s.nextFrameCallbacks.filter fun callback => callback.1 != window
      woken := fun task view =>
        s.woken task view || (decide ((window, view) ∈ s.nextFrameCallbacks) &&
          (s.output task).isSome) } := by
  unfold frame
  rw [foldl_notify]
  congr 1
  funext task view
  congr 2
  rw [Bool.eq_iff_iff, any_eq_true, decide_eq_true_iff]
  constructor
  · intro h
    obtain ⟨⟨w, v⟩, hmem, hv⟩ := h
    rw [mem_filter, beq_iff_eq] at hmem
    rw [beq_iff_eq] at hv
    rw [← hmem.2, ← hv]
    exact hmem.1
  · intro h
    exact ⟨(window, view), mem_filter.2 ⟨h, by simp⟩, by simp⟩

theorem Inv.frame (hinv : s.Inv) (window : Nat) : (s.frame window).Inv := by
  rw [frame_eq]
  refine ⟨?_, ?_, ?_, hinv.issued, hinv.fresh⟩
  · intro task view hwaits
    obtain ⟨hasked, hexists, hwoken⟩ := hwaits
    rw [Bool.or_eq_false_iff] at hwoken
    obtain ⟨other, hopen, hway⟩ := hinv.way task view ⟨hasked, hexists, hwoken.1⟩
    refine ⟨other, hopen, hway.imp id fun hcalled => ⟨hcalled.1, ?_⟩⟩
    refine mem_filter.2 ⟨hcalled.2, ?_⟩
    rw [bne_iff_ne]
    intro heq
    -- its callback would have been called
    have hmem : (window, view) ∈ s.nextFrameCallbacks := by
      rw [← heq]
      exact hcalled.2
    have hfalse := hwoken.2
    rw [hcalled.1, Bool.and_true, decide_eq_false_iff_not] at hfalse
    exact hfalse hmem
  · intro task view hwoken
    rw [Bool.or_eq_true, Bool.and_eq_true] at hwoken
    cases hwoken with
    | inl hold => exact hinv.done task view hold
    | inr hnew => exact hnew.2
  · intro other view hmem
    exact hinv.callbacks other view (mem_filter.1 hmem).1

theorem Inv.notify (hinv : s.Inv) (view : Nat) : (s.notify view).Inv := by
  refine ⟨?_, ?_, hinv.callbacks, hinv.issued, hinv.fresh⟩
  · intro task other hwaits
    obtain ⟨hasked, hexists, hwoken⟩ := hwaits
    exact hinv.way task other ⟨hasked, hexists, (Bool.or_eq_false_iff.1 hwoken).1⟩
  · intro task other hwoken
    cases Bool.or_eq_true_iff.1 hwoken with
    | inl hold => exact hinv.done task other hold
    | inr hnew => exact (Bool.and_eq_true_iff.1 hnew).2

theorem Inv.closeWindow (hinv : s.Inv) (hallowed : ∀ task view, s.Waits task view →
      ∃ other, other ≠ window ∧ s.OnItsWay task view other) : (s.closeWindow window).Inv := by
  refine ⟨?_, hinv.done, ?_, hinv.issued, hinv.fresh⟩
  · intro task view hwaits
    obtain ⟨other, hne, hopen, hway⟩ := hallowed task view hwaits
    refine ⟨other, ?_, hway.imp id fun hcalled => ⟨hcalled.1, ?_⟩⟩
    · intro hmem
      cases mem_cons.1 hmem with
      | inl heq => exact hne heq
      | inr hclosed => exact hopen hclosed
    · exact mem_filter.2 ⟨hcalled.2, by simpa using hne⟩
  · intro other view hmem
    obtain ⟨hmem, hne⟩ := mem_filter.1 hmem
    intro hclosed
    cases mem_cons.1 hclosed with
    | inl heq => exact (bne_iff_ne.1 hne) heq
    | inr hclosed => exact hinv.callbacks other view hmem hclosed

theorem Inv.release (hinv : s.Inv) (view : Nat) : (s.release view).Inv := by
  refine ⟨?_, hinv.done, hinv.callbacks, hinv.issued, hinv.fresh⟩
  intro task other hwaits
  obtain ⟨hasked, hexists, hwoken⟩ := hwaits
  exact hinv.way task other ⟨hasked, fun h => hexists (mem_cons_of_mem _ h), hwoken⟩

theorem quiet_removeAsset (s : State Out) (id : AssetId) : s.Quiet (s.removeAsset id) :=
  .tables s (fun _ _ hmem => (mem_filter.1 hmem).1) fun key _ hmem => ⟨key, hmem⟩

theorem quiet_filter (s : State Out) (keep : (Nat × Nat) × ImageCacheItem Out → Bool) :
    s.Quiet { s with images := s.images.filter keep } :=
  .tables s (fun _ _ hmem => hmem) fun key _ hmem => ⟨key, (mem_filter.1 hmem).1⟩

theorem Inv.good (hinv : s.Inv) : s.Good := by
  intro task view hwaits _
  obtain ⟨window, _, hway⟩ := hinv.way task view hwaits
  exact hway.imp (fun hmem => ⟨window, hmem⟩) fun hcalled => ⟨window, hcalled.2⟩

theorem inductive_inv : (machine Out).Inductive Allowed Inv where
  start := inv_initial
  step := by
    intro s a s' hinv hallowed hstep
    cases a with
    | useAsset id ready window view =>
      obtain ⟨hpossible, hs⟩ := Option.ite_none_left_eq_some.1 hstep
      cases hs
      exact hinv.called (s.called_useAsset id ready window view)
        (fun h => hpossible (.inl h)) hallowed
    | load cache hash ready window view =>
      obtain ⟨hpossible, hs⟩ := Option.ite_none_left_eq_some.1 hstep
      cases hs
      exact hinv.called (s.called_load cache hash ready window view)
        (fun h => hpossible (.inl h)) hallowed
    | getAsset id ready =>
      cases hstep
      exact hinv.quiet (s.quiet_fetchAsset id ready)
    | removeAsset id =>
      cases hstep
      exact hinv.quiet (s.quiet_removeAsset id)
    | removeImage _ _ | clearImages _ =>
      cases hstep
      exact hinv.quiet (s.quiet_filter _)
    | complete task out =>
      obtain ⟨hpossible, hs⟩ := Option.ite_none_right_eq_some.1 hstep
      cases hs
      exact hinv.complete out hpossible.2
    | wake waiter =>
      obtain ⟨hpossible, hs⟩ := Option.ite_none_right_eq_some.1 hstep
      cases hs
      exact hinv.wake hpossible.2
    | frame window =>
      obtain ⟨_, hs⟩ := Option.ite_none_left_eq_some.1 hstep
      cases hs
      exact hinv.frame window
    | notify view =>
      cases hstep
      exact hinv.notify view
    | closeWindow window =>
      obtain ⟨_, hs⟩ := Option.ite_none_left_eq_some.1 hstep
      cases hs
      exact hinv.closeWindow hallowed
    | release view =>
      obtain ⟨_, hs⟩ := Option.ite_none_left_eq_some.1 hstep
      cases hs
      exact hinv.release view

/-! ### Section 4: Views that are lost -/

/-- The loads are done, and the tasks that wait for them and the frames go on. -/
def Ripens : Action Out → Prop
  | .complete _ _ | .wake _ | .frame _ => True
  | _ => False

theorem Ripens.allowed (h : Ripens a) (s : State Out) : Allowed s a := by
  cases a with
  | complete | wake | frame => trivial
  | _ => exact h.elim

/-- A view waits, and nothing will notify it in an open window. -/
structure Lost (s : State Out) (task view : Nat) : Prop where
  waits : s.Waits task view
  waiting : ∀ window, ⟨task, window, view⟩ ∈ s.waiting → window ∈ s.closed
  callbacks : (s.output task).isSome → ∀ window, (window, view) ∉ s.nextFrameCallbacks
  held : s.output task = none → s.held task = true

/-- Some actions let the loads ripen until a state is not good. -/
def Spoiled (s : State Out) : Prop :=
  ∃ actions s', (∀ a ∈ actions, Ripens a) ∧
    (machine Out).run s actions = some (.ok s') ∧ ¬ s'.Good

theorem Spoiled.step (ha : Ripens a) (hstep : s.step a = some (.ok s')) (h : s'.Spoiled) : s.Spoiled := by
  obtain ⟨actions, last, hripens, hrun, hbad⟩ := h
  refine ⟨a :: actions, last, ?_, ?_, hbad⟩
  · intro b hb
    cases hb with
    | head => exact ha
    | tail _ hb => exact hripens b hb
  · rw [Machine.run_cons_ok (m := machine Out) actions hstep]
    exact hrun

/-- The load is done: what waits for it in closed windows goes on in vain. -/
theorem Lost.spoiled_done {s : State Out} (h : s.Lost task view) (hdone : (s.output task).isSome) :
    s.Spoiled := by
  by_cases hleft : ∃ window, ⟨task, window, view⟩ ∈ s.waiting
  · obtain ⟨window, hmem⟩ := hleft
    have hlength := length_erase_of_mem hmem
    have hpos := length_pos_of_mem hmem
    have hclosed := h.waiting window hmem
    have hlost : (s.wake ⟨task, window, view⟩).Lost task view := by
      rw [wake_closed hclosed]
      refine ⟨h.waits, ?_, h.callbacks, ?_⟩
      · intro other hother
        exact h.waiting other (mem_of_mem_erase hother)
      · intro hnone
        rw [hnone] at hdone
        cases hdone
    refine Spoiled.step (a := .wake ⟨task, window, view⟩) trivial (if_pos ⟨hmem, hdone⟩)
      (hlost.spoiled_done ?_)
    rw [wake_closed hclosed]
    exact hdone
  · -- nothing is left for the view
    refine ⟨[], s, fun a ha => (not_mem_nil ha).elim, rfl, ?_⟩
    intro hgood
    cases hgood task view h.waits hdone with
    | inl hwaiting => exact hleft hwaiting
    | inr hcalled =>
      obtain ⟨window, hmem⟩ := hcalled
      exact h.callbacks hdone window hmem
termination_by s.waiting.length
decreasing_by
  rw [wake_closed hclosed]
  show (s.waiting.erase _).length < _
  omega

/-- The callbacks that are there are called first, so that they do not wake the view once
    its load is done. -/
theorem Lost.spoiled [Inhabited Out] {s : State Out} (h : s.Lost task view)
    (hcallbacks : ∀ window view, (window, view) ∈ s.nextFrameCallbacks → window ∉ s.closed) :
    s.Spoiled := by
  cases hout : s.output task with
  | some out => exact h.spoiled_done (by rw [hout]; rfl)
  | none =>
    by_cases hleft : ∃ window, (window, view) ∈ s.nextFrameCallbacks
    · -- one frame takes the callbacks of a window
      obtain ⟨window, hmem⟩ := hleft
      have hopen := hcallbacks window view hmem
      have hlt : (s.frame window).nextFrameCallbacks.length < s.nextFrameCallbacks.length := by
        rw [frame_eq]
        refine length_filter_lt_length_iff_exists.2 ⟨_, hmem, ?_⟩
        simp
      have hlost : (s.frame window).Lost task view := by
        rw [frame_eq]
        refine ⟨⟨h.waits.1, h.waits.2.1, ?_⟩, h.waiting, ?_, h.held⟩
        · show (s.woken task view || (_ && (s.output task).isSome)) = false
          rw [hout, h.waits.2.2]
          simp
        · intro hdone
          rw [hout] at hdone
          cases hdone
      refine Spoiled.step (a := .frame window) trivial (if_neg hopen) (hlost.spoiled ?_)
      rw [frame_eq]
      intro other v hother
      exact hcallbacks other v (mem_filter.1 hother).1
    · -- no callback is left for the view: the load may be done
      have hdone : ((s.complete task default).output task).isSome := by
        show (if task = task then some default else s.output task).isSome
        rw [if_pos rfl]
        rfl
      have hlost : (s.complete task default).Lost task view := by
        refine ⟨h.waits, h.waiting, ?_, ?_⟩
        · intro _ window hmem
          exact hleft ⟨window, hmem⟩
        · intro hnone
          rw [hnone] at hdone
          cases hdone
      have hpossible : (s.output task).isNone ∧ s.held task = true := by
        rw [hout]
        exact ⟨rfl, h.held hout⟩
      exact Spoiled.step (a := .complete task default) trivial (if_pos hpossible)
        (hlost.spoiled_done hdone)
termination_by s.nextFrameCallbacks.length

theorem Inv.not_woken (hinv : s.Inv) (hnone : s.output task = none)
    (view : Nat) : s.woken task view = false := by
  rw [← Bool.not_eq_true]
  intro hwoken
  have hdone := hinv.done task view hwoken
  rw [hnone] at hdone
  cases hdone

/-- A view that shares a task, and is not registered for it, is lost. -/
theorem Called.lost (hinv : s.Inv)
    (hcalled : s.Called window view shared s') (hexists : view ∉ s.released)
    (hnot : ¬ s.Registered shared view) : ∃ task, s'.Lost task view := by
  unfold Registered at hnot
  push Not at hnot
  obtain ⟨task, hshared, hnone, hunregistered⟩ := hnot
  cases hcalled with
  | answered _ hdone =>
    -- a task that is not done answers nobody
    have hsome := hdone task hshared
    rw [hnone] at hsome
    cases hsome
  | first _ _ hnew _ =>
    rw [hshared] at hnew
    cases hnew
  | shares other hquiet hother _ hout hheld =>
    rw [hshared] at hother
    cases hother
    refine ⟨task, ⟨mem_cons_self .., ?_, ?_⟩, ?_, ?_, fun _ => hheld⟩
    · intro hreleased
      rw [← hquiet.released] at hexists
      exact hexists hreleased
    · exact (hinv.quiet hquiet).not_woken hout view
    · intro other hmem
      show other ∈ _
      rw [State.handNone, hquiet.waiting] at hmem
      rw [State.handNone, hquiet.closed]
      by_contra hopen
      exact hunregistered other hopen hmem
    · intro hdone
      rw [State.handNone, hout] at hdone
      cases hdone

/-- A window is closed in which alone a view would have been notified. -/
theorem Inv.lost_of_closeWindow (hinv : s.Inv) (hwaits : s.Waits task view)
    (hnot : ∀ other, other ≠ window → ¬ s.OnItsWay task view other) :
    (s.closeWindow window).Lost task view where
  waits := hwaits
  waiting := by
    intro other hmem
    by_cases heq : other = window
    · rw [heq]
      exact mem_cons_self ..
    · by_contra hopen
      refine hnot other heq ⟨?_, .inl hmem⟩
      exact fun hclosed => hopen (mem_cons_of_mem _ hclosed)
  callbacks := by
    intro hdone other hmem
    obtain ⟨hmem, hne⟩ := mem_filter.1 hmem
    exact hnot other (bne_iff_ne.1 hne) ⟨hinv.callbacks other view hmem, .inr ⟨hdone, hmem⟩⟩
  held := by
    intro hnone
    obtain ⟨other, _, hway⟩ := hinv.way task view hwaits
    cases hway with
    | inl hmem => exact held_iff.2 (.inr (.inr ⟨_, hmem, rfl⟩))
    | inr hcalled =>
      have hnone : s.output task = none := hnone
      rw [hnone] at hcalled
      cases hcalled.1

theorem Called.nextFrameCallbacks (hinv : s.Inv) (hcalled : s.Called window view shared s') :
    ∀ window view, (window, view) ∈ s'.nextFrameCallbacks → window ∉ s'.closed := by
  cases hcalled with
  | answered hquiet _ | first _ hquiet _ _ => exact (hinv.quiet hquiet).callbacks
  | shares _ hquiet _ _ _ _ => exact (hinv.quiet hquiet).callbacks

theorem Inv.spoiled [Inhabited Out] (hinv : s.Inv)
    (hstep : s.step a = some (.ok s')) (hnot : ¬ Allowed s a) : s'.Spoiled := by
  cases a with
  | useAsset id ready window view =>
    obtain ⟨hpossible, hs⟩ := Option.ite_none_left_eq_some.1 hstep
    cases hs
    have hcalled := s.called_useAsset id ready window view
    obtain ⟨task, hlost⟩ := hcalled.lost hinv (fun h => hpossible (.inr h)) hnot
    exact hlost.spoiled (hcalled.nextFrameCallbacks hinv)
  | load cache hash ready window view =>
    obtain ⟨hpossible, hs⟩ := Option.ite_none_left_eq_some.1 hstep
    cases hs
    have hcalled := s.called_load cache hash ready window view
    obtain ⟨task, hlost⟩ := hcalled.lost hinv (fun h => hpossible (.inr h)) hnot
    exact hlost.spoiled (hcalled.nextFrameCallbacks hinv)
  | closeWindow window =>
    obtain ⟨_, hs⟩ := Option.ite_none_left_eq_some.1 hstep
    cases hs
    unfold Allowed at hnot
    push Not at hnot
    obtain ⟨task, view, hwaits, hways⟩ := hnot
    refine (hinv.lost_of_closeWindow hwaits hways).spoiled ?_
    intro other v hmem
    obtain ⟨hmem, hne⟩ := mem_filter.1 hmem
    intro hclosed
    cases mem_cons.1 hclosed with
    | inl heq => exact (bne_iff_ne.1 hne) heq
    | inr hclosed => exact hinv.callbacks other v hmem hclosed
  | _ => exact absurd trivial hnot

/-- Every view that was handed `None` for an asset is about to be notified while it waits,
    if every view that shares a task is registered for it and no window is closed in which
    alone a view would be notified; and every other step leads to a view that nothing will
    notify, though the load is done. -/
theorem waiting_views_woken [Inhabited Out] : (machine Out).Exact Allowed Good := by
  refine inductive_inv.exact (fun s hinv => hinv.good) ?_
  intro s a s' hinv hstep hnot
  obtain ⟨actions, last, hripens, hrun, hbad⟩ := hinv.spoiled hstep hnot
  exact ⟨actions, last, .of_forall (fun s b hb => (hripens b hb).allowed s) s', hrun, hbad⟩

/-- Two views ask for an asset in the same frame: the second one is not notified when the
    load is done. -/
theorem second_view_not_woken : ∃ s : State Nat,
    (machine Nat).run (machine Nat).start
      [.useAsset ⟨0, 7⟩ none 1 10, .useAsset ⟨0, 7⟩ none 1 11, .complete 0 42,
        .wake ⟨0, 1, 10⟩, .frame 1] = some (.ok s) ∧
      s.asked = [(0, 11), (0, 10)] ∧ s.output 0 = some 42 ∧ s.woken 0 10 = true ∧
      s.woken 0 11 = false ∧ ¬ s.Good := by
  refine ⟨_, rfl, rfl, rfl, rfl, rfl, ?_⟩
  intro hgood
  cases hgood 0 11 ⟨by decide, by decide, rfl⟩ rfl with
  | inl hwaiting =>
    obtain ⟨window, hmem⟩ := hwaiting
    cases hmem
  | inr hcalled =>
    obtain ⟨window, hmem⟩ := hcalled
    cases hmem

end State

end Assets

end Gpui
