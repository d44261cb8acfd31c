import Gpui.Queue.Iterators

/-! # Which iterators of the queue are fused

    * Once the sender is gone and the queues are empty, they stay so (`Dry.step`).
    * An iterator that has returned `None` has ended for good (`Ended`): an `Iter` because
      the queue is dry, a `TryIter` because of its flag.  A step keeps this, unless it is the
      `next` of a `TryIter` on queues that are empty while the sender is there.
    * After such a `next`, one send is enough for a `Some` behind the `None`. -/

open Exec

namespace Gpui

open List

variable {T : Type}

/-- The receiver is not dropped. -/
def Receiver.there : Receiver → Bool
  | .dropped => false
  | _        => true

namespace PriorityQueueState

/-! ### The queue -/

/-- The sender is gone, and so is everything it sent. -/
structure Dry (s : PriorityQueueState T) : Prop where
  gone : s.senderCount = 0
  empty : s.queues.isEmpty = true
  quiet : s.inFlight = []

/-- No send is running without a sender, and the receivers are counted. -/
structure Manned (s : PriorityQueueState T) : Prop where
  quiet : s.senderCount = 0 → s.inFlight = []
  counted : s.receiverCount = s.receivers.countP Receiver.there

variable {s s' : PriorityQueueState T} {a : Action T} {receiver : Nat}

theorem push_cases {send : Nat} {woken : Option Nat} (h : s.push send woken = some (.ok s')) :
    ∃ priority item queues, s.inFlight[send]? = some (priority, item) ∧
      s.queues.push priority item = .ok queues ∧
      { s with
        queues := queues
        inFlight := s.inFlight.eraseIdx send
        accepted := s.accepted ++ [(priority, item)] }.notifyOne woken = some s' := by
  unfold PriorityQueueState.push at h
  split at h
  · cases h
  · rename_i priority item hsend
    split at h
    · cases h
    · rename_i queues hqueues
      simp only [Option.map_eq_some_iff, Except.ok.injEq, exists_eq_right] at h
      exact ⟨priority, item, queues, hsend, hqueues, h⟩

/-- What a step does that is no look for an item. -/
theorem step_sends (hpops : a.pops = none)
    (h : s.step a = some (.ok s')) :
    -- the steps of the sender
    (s.senderCount ≠ 0 ∧ (∃ priority item, s' = s.send priority item)) ∨
    (∃ send woken, s.push send woken = some (.ok s')) ∨
    (s.inFlight = [] ∧ s' = { s with senderCount := s.senderCount - 1 }) ∨
    -- the steps of a receiver
    (s' = { s with receiverCount := s.receiverCount + 1, receivers := s.receivers ++ [.idle] }) ∨
    (∃ receiver, s.receivers[receiver]? = some .idle ∧
      s' = { s.setReceiver receiver .dropped with receiverCount := s.receiverCount - 1 }) ∨

    (∃ receiver, s.receivers[receiver]? = some .checked ∧ s' = s.setReceiver receiver .waiting) := by
  unfold PriorityQueueState.step at h
  cases a with
  | send priority item | spinSend priority item =>
    simp only [Option.ite_none_left_eq_some, Option.some.injEq, Except.ok.injEq] at h
    exact .inl ⟨h.1, priority, item, h.2.symm⟩
  | push send woken =>
    simp only [Option.ite_none_right_eq_some] at h
    exact .inr (.inl ⟨send, woken, h.2⟩)
  | dropSender =>
    simp only [Option.ite_none_left_eq_some, Option.some.injEq, Except.ok.injEq, not_or,
      not_not] at h
    exact .inr (.inr (.inl ⟨h.1.2, h.2.symm⟩))
  | clone receiver =>
    simp only [Option.ite_none_right_eq_some, Option.some.injEq, Except.ok.injEq] at h
    exact .inr (.inr (.inr (.inl h.2.symm)))
  | dropReceiver receiver =>
    simp only [Option.ite_none_right_eq_some, Option.some.injEq, Except.ok.injEq] at h
    exact .inr (.inr (.inr (.inr (.inl ⟨receiver, h.1, h.2.symm⟩))))
  | wait receiver =>
    simp only [Option.ite_none_right_eq_some, Option.some.injEq, Except.ok.injEq] at h
    exact .inr (.inr (.inr (.inr (.inr ⟨receiver, h.1, h.2.symm⟩))))
  | _ => cases hpops

/-- A receiver that looks for an item is there. -/
theorem step_pops_there
    {r : Except QueuePanic (PriorityQueueState T)} (hpops : a.pops = some receiver)
    (h : s.step a = some r) :
    ∃ x, s.receivers[receiver]? = some x ∧ x.there = true := by
  unfold PriorityQueueState.step at h
  cases a with
  | pop _ _ | tryPop _ _ | spinTryPop _ _ =>
    cases hpops
    simp only [Option.ite_none_right_eq_some] at h
    exact ⟨.idle, h.1.1, rfl⟩
  | wake i coin =>
    cases hpops
    simp only [Option.ite_none_right_eq_some] at h
    exact ⟨.notified, h.1.1, rfl⟩
  | _ => cases hpops

/-- **What is gone does not come back.** -/
theorem Dry.step (h : s.Dry) (hstep : s.step a = some (.ok s')) : s'.Dry := by
  cases hpops : a.pops with
  | some receiver =>
    -- there is no item to take
    rcases step_pops hpops hstep with ⟨hfull, _⟩ | ⟨_, x, hr, _⟩
    · rw [h.empty] at hfull
      cases hfull
    · cases hr
      exact ⟨h.gone, h.empty, h.quiet⟩
  | none =>
    rcases step_sends hpops hstep with ⟨hthere, _⟩ | ⟨send, woken, hpush⟩ | ⟨_, rfl⟩ | rfl |
      ⟨receiver, _, rfl⟩ | ⟨receiver, _, rfl⟩
    · exact absurd h.gone hthere
    · -- there is no send to get the lock
      obtain ⟨priority, item, _, hsend, _⟩ := push_cases hpush
      rw [h.quiet] at hsend
      cases hsend
    · refine ⟨?_, h.empty, h.quiet⟩
      show s.senderCount - 1 = 0
      rw [h.gone]
    · exact ⟨h.gone, h.empty, h.quiet⟩
    · exact ⟨h.gone, h.empty, h.quiet⟩
    · exact ⟨h.gone, h.empty, h.quiet⟩

theorem countP_set_there {receivers : List Receiver} {r x : Receiver}
    (h : receivers[receiver]? = some r) (hr : r.there = true) (hx : x.there = true) :
    (receivers.set receiver x).countP Receiver.there = receivers.countP Receiver.there := by
  obtain ⟨hlt, hget⟩ := List.getElem?_eq_some_iff.1 h
  have hpos : 0 < receivers.countP Receiver.there :=
    countP_pos_iff.2 ⟨r, mem_of_getElem? h, hr⟩
  rw [countP_set hlt, hget, if_pos hr, if_pos hx]
  omega

theorem notifyOne_receivers {woken : Option Nat} (h : s.notifyOne woken = some s') :
    s'.receiverCount = s.receiverCount ∧
      s'.receivers.countP Receiver.there = s.receivers.countP Receiver.there := by
  unfold notifyOne at h
  split at h
  · split at h
    · cases h
    · cases h
      exact ⟨rfl, rfl⟩
  · split at h
    · rename_i hwaiting
      cases h
      exact ⟨rfl, countP_set_there hwaiting rfl rfl⟩
    · cases h

theorem Manned.step (h : s.Manned) (hstep : s.step a = some (.ok s')) : s'.Manned := by
  cases hpops : a.pops with
  | some receiver =>
    obtain ⟨r, hr, hthere⟩ := step_pops_there hpops hstep
    rcases step_pops hpops hstep with ⟨_, drawn, _, heq⟩ | ⟨_, x, heq, hx⟩
    · cases heq
      exact ⟨h.quiet, h.counted.trans (countP_set_there hr hthere rfl).symm⟩
    · cases heq
      have hne : x.there = true := by
        rcases hx with rfl | ⟨rfl, _⟩ | ⟨rfl, _⟩ <;> rfl
      exact ⟨h.quiet, h.counted.trans (countP_set_there hr hthere hne).symm⟩
  | none =>
    rcases step_sends hpops hstep with ⟨hthere, priority, item, rfl⟩ | ⟨send, woken, hpush⟩ |
      ⟨hquiet, rfl⟩ | rfl | ⟨receiver, hr, rfl⟩ | ⟨receiver, hr, rfl⟩
    · unfold PriorityQueueState.send
      split
      · exact h
      · exact ⟨fun hgone => absurd hgone hthere, h.counted⟩
    · obtain ⟨priority, item, queues, _, _, hnotify⟩ := push_cases hpush
      obtain ⟨_, hinFlight, _, _, hsender⟩ := notifyOne_frame hnotify
      obtain ⟨hcount, hcountP⟩ := notifyOne_receivers hnotify
      refine ⟨?_, ?_⟩
      · intro hgone
        rw [hsender] at hgone
        rw [hinFlight]
        show s.inFlight.eraseIdx send = []
        rw [h.quiet hgone, eraseIdx_nil]
      · rw [hcount, hcountP]
        exact h.counted
    · exact ⟨fun _ => hquiet, h.counted⟩
    · refine ⟨h.quiet, ?_⟩
      show s.receiverCount + 1 = (s.receivers ++ [Receiver.idle]).countP Receiver.there
      rw [countP_append, h.counted]
      rfl
    · refine ⟨h.quiet, ?_⟩
      obtain ⟨hlt, hget⟩ := List.getElem?_eq_some_iff.1 hr
      show s.receiverCount - 1 = (s.receivers.set receiver .dropped).countP Receiver.there
      rw [countP_set hlt, hget, h.counted]
      rfl
    · exact ⟨h.quiet, h.counted.trans (countP_set_there hr rfl rfl).symm⟩

/-! ### What the calls return -/

theorem tryPopReturns_eq (s : PriorityQueueState T) (coin : Priority → Bool) :
    (s.queues.isEmpty = false ∧ ∃ item, s.tryPopReturns coin = .ok (.ok (some item))) ∨
    (s.queues.isEmpty = true ∧ s.senderCount = 0 ∧ s.tryPopReturns coin = .ok (.error {})) ∨
    (s.queues.isEmpty = true ∧ s.senderCount ≠ 0 ∧ s.tryPopReturns coin = .ok (.ok none)) := by
  unfold tryPopReturns tryRecv
  cases hempty : s.queues.isEmpty with
  | false =>
    left
    obtain ⟨drawn, hdraw, priority, item, hsome, _⟩ := PriorityQueues.draw_takes coin hempty
    refine ⟨rfl, item, ?_⟩
    simp [hdraw, Except.map, hsome]
  | true =>
    right
    by_cases hgone : s.senderCount = 0
    · exact .inl ⟨rfl, hgone, by simp [hgone]⟩
    · exact .inr ⟨rfl, hgone, by simp [hgone]⟩

theorem unwrapped_eq (s : PriorityQueueState T) (coin : Priority → Bool)
    (h : s.queues.isEmpty = false) : ∃ item, s.unwrapped coin = .ok (some (.ok item)) := by
  obtain ⟨drawn, hdraw, priority, item, hsome, _⟩ := PriorityQueues.draw_takes coin h
  refine ⟨item, ?_⟩
  unfold unwrapped
  rw [hdraw, ok_bind, hsome]

theorem popReturns_eq (s : PriorityQueueState T) (coin : Priority → Bool) :
    (s.queues.isEmpty = false ∧ ∃ item, s.popReturns coin = .ok (some (.ok item))) ∨
    (s.queues.isEmpty = true ∧ s.senderCount = 0 ∧ s.popReturns coin = .ok (some (.error {}))) ∨
    s.popReturns coin = .ok none := by
  unfold popReturns
  cases hempty : s.queues.isEmpty with
  | false =>
    left
    obtain ⟨item, hitem⟩ := s.unwrapped_eq coin hempty
    exact ⟨rfl, item, by simpa using hitem⟩
  | true =>
    right
    by_cases hgone : s.senderCount = 0
    · exact .inl ⟨rfl, hgone, by simp [hgone]⟩
    · exact .inr (by simp [hgone])

theorem wakeReturns_eq (s : PriorityQueueState T) (coin : Priority → Bool) :
    (s.queues.isEmpty = false ∧ ∃ item, s.wakeReturns coin = .ok (some (.ok item))) ∨
    s.wakeReturns coin = .ok none := by
  unfold wakeReturns
  cases hempty : s.queues.isEmpty with
  | false =>
    left
    obtain ⟨item, hitem⟩ := s.unwrapped_eq coin hempty
    exact ⟨rfl, item, by simpa using hitem⟩
  | true =>
    right
    simp

/-! ### An item comes in -/

/-- While the sender and a receiver that does nothing are there, an item can be sent. -/
theorem Manned.item_comes (h : s.Manned) (hthere : s.senderCount ≠ 0)
    (hidle : s.receivers[receiver]? = some .idle) (hunlocked : s.unlocked = true) (item : T) :
    ∃ woken s₁ s₂, s.step (.send .high item) = some (.ok s₁) ∧
      s₁.step (.push s.inFlight.length woken) = some (.ok s₂) ∧
      s₂.queues.isEmpty = false ∧ s₂.receivers[receiver]? = some .idle ∧
      s₂.unlocked = true := by
  -- the sender sees a receiver
  have hcount : s.receiverCount ≠ 0 := by
    have hpos : 0 < s.receivers.countP Receiver.there :=
      countP_pos_iff.2 ⟨.idle, mem_of_getElem? hidle, rfl⟩
    have hcounted := h.counted
    omega
  let s₁ : PriorityQueueState T := { s with inFlight := s.inFlight ++ [(.high, item)] }
  have hsend : s.step (.send .high item) = some (.ok s₁) := by
    simp only [PriorityQueueState.step, PriorityQueueState.send, hthere, hcount, if_false]
    rfl
  let queues : PriorityQueues T := { s.queues with highPriority := s.queues.highPriority ++ [item] }
  let s₂ : PriorityQueueState T :=
    { s with
      queues := queues
      inFlight := s₁.inFlight.eraseIdx s.inFlight.length
      accepted := s.accepted ++ [(.high, item)] }
  have hfull : queues.isEmpty = false := by
    simp [queues, PriorityQueues.isEmpty]
  have hpush : ∀ woken s', s₂.notifyOne woken = some s' →
      s₁.step (.push s.inFlight.length woken) = some (.ok s') := by
    intro woken s' hnotify
    have hget : s₁.inFlight[s.inFlight.length]? = some (.high, item) := by simp [s₁]
    have hunlocked₁ : s₁.unlocked = true := hunlocked
    simp only [PriorityQueueState.step, hunlocked₁, if_true]
    unfold PriorityQueueState.push
    rw [hget]
    show (s₂.notifyOne woken).map Except.ok = _
    rw [hnotify]
    rfl
  -- it wakes a receiver that sleeps, if there is one
  by_cases hwaiting : .waiting ∈ s.receivers
  · obtain ⟨other, hother⟩ := mem_iff_getElem?.1 hwaiting
    refine ⟨some other, s₁, s₂.setReceiver other .notified, hsend, hpush _ _ (if_pos hother), hfull,
      ?_, ?_⟩
    · have hne : other ≠ receiver := by
        rintro rfl
        rw [hidle] at hother
        cases hother
      show (s.receivers.set other .notified)[receiver]? = some .idle
      rw [getElem?_set_ne hne, hidle]
    · unfold unlocked at hunlocked ⊢
      rw [Bool.not_eq_true', ← Bool.not_eq_true, contains_iff_mem] at hunlocked ⊢
      intro hchecked
      rcases mem_or_eq_of_mem_set hchecked with hmem | heq
      · exact hunlocked hmem
      · cases heq
  · refine ⟨none, s₁, s₂, hsend, hpush _ _ ?_, hfull, hidle, hunlocked⟩
    show (if s.receivers.contains .waiting then none else some s₂) = some s₂
    rw [if_neg]
    rw [contains_iff_mem]
    exact hwaiting

/-- A receiver that looks into empty queues while the sender is there changes nothing. -/
theorem tryPop_nothing {coin : Priority → Bool}
    (h : s.step (.tryPop receiver coin) = some (.ok s')) (hempty : s.queues.isEmpty = true) :
    s' = s ∧ s.receivers[receiver]? = some .idle ∧ s.unlocked = true := by
  simp only [PriorityQueueState.step, Option.ite_none_right_eq_some, Option.some.injEq] at h
  obtain ⟨⟨hidle, hunlocked⟩, htry⟩ := h
  refine ⟨?_, hidle, hunlocked⟩
  rcases s.popReceived_eq coin with ⟨_, hsame⟩ | ⟨hfull, _⟩
  · exact Except.ok.inj (htry.symm.trans hsame)
  · rw [hempty] at hfull
    cases hfull

end PriorityQueueState

namespace IteratorState

/-! ### The updates -/

@[simp] theorem wrapper_wrap_self (s : IteratorState T) (receiver : Nat) (w : Wrapper) :
    (s.wrap receiver w).wrapper receiver = w :=
  Function.update_self ..

variable {receiver other : Nat} {s s' : IteratorState T} {ended : Bool} {coin : Priority → Bool}
variable {a : IteratorAction T}

@[simp] theorem wrapper_wrap_ne (s : IteratorState T) (w : Wrapper)
    (h : other ≠ receiver) : (s.wrap receiver w).wrapper other = s.wrapper other :=
  Function.update_of_ne h ..

@[simp] theorem returned_returns_self (s : IteratorState T) (receiver : Nat)
    (item : Option (Except RecvError T)) :
    (s.returns receiver item).returned receiver = s.returned receiver ++ [item] :=
  Function.update_self ..

@[simp] theorem returned_returns_ne (s : IteratorState T)
    (item : Option (Except RecvError T)) (h : other ≠ receiver) :
    (s.returns receiver item).returned other = s.returned other :=
  Function.update_of_ne h ..

/-! ### The ends -/

/-- The iterator has nothing to return any more. -/
def Ended (s : IteratorState T) (receiver : Nat) : Prop :=
  s.wrapper receiver = .tryIter true ∨ (s.wrapper receiver = .iter ∧ s.queue.Dry)

/-- What an iterator returned is fused, and its `None` was the end. -/
structure Sound (s : IteratorState T) (receiver : Nat) : Prop where
  fused : Fused (s.returned receiver)
  ended : none ∈ s.returned receiver → s.Ended receiver

theorem Sound.frame (h : s.Sound receiver) (hwrapper : s'.wrapper receiver = s.wrapper receiver)
    (hreturned : s'.returned receiver = s.returned receiver)
    (hdry : s.queue.Dry → s'.queue.Dry) : s'.Sound receiver where
  fused := by
    rw [hreturned]
    exact h.fused
  ended := by
    intro hnone
    rw [hreturned] at hnone
    unfold Ended
    rw [hwrapper]
    rcases h.ended hnone with htry | ⟨hiter, hd⟩
    · exact .inl htry
    · exact .inr ⟨hiter, hdry hd⟩

/-- An iterator that has not ended returns something. -/
theorem Sound.goesOn (h : s.Sound receiver) {item : Except RecvError T} (hgoes : ¬ s.Ended receiver)
    (hreturned : s'.returned receiver = s.returned receiver ++ [some item]) :
    s'.Sound receiver := by
  have hnone : none ∉ s.returned receiver := fun hmem => hgoes (h.ended hmem)
  refine ⟨?_, ?_⟩
  · rw [hreturned]
    unfold Fused
    rw [pairwise_append]
    refine ⟨h.fused, pairwise_singleton .., ?_⟩
    intro earlier hearlier later _ hnil
    rw [hnil] at hearlier
    exact absurd hearlier hnone
  · intro hmem
    rw [hreturned, mem_append, mem_singleton] at hmem
    rcases hmem with hmem | hmem
    · exact absurd hmem hnone
    · cases hmem

/-- An iterator returns `None`, and has ended then. -/
theorem Sound.ends (h : s.Sound receiver) (hended : s'.Ended receiver)
    (hreturned : s'.returned receiver = s.returned receiver ++ [none]) :
    s'.Sound receiver := by
  refine ⟨?_, fun _ => hended⟩
  rw [hreturned]
  unfold Fused
  rw [pairwise_append]
  refine ⟨h.fused, pairwise_singleton .., ?_⟩
  intro _ _ later hlater _
  exact mem_singleton.1 hlater

/-! ### The calls of `next` -/

/-- What `TryIter::next` does, with the state after it. -/
theorem tryNext_cases (h : s.tryNext receiver ended coin = some (.ok s')) :
    (ended = true ∧ s' = s.returns receiver none) ∨
    ∃ queue, s.queue.step (.tryPop receiver coin) = some (.ok queue) ∧ ended = false ∧
      -- an item, the end, or a `None` that is not the end
      ((s.queue.queues.isEmpty = false ∧ ∃ item,
        s' = ({ s with queue := queue }.wrap receiver (.tryIter false)).returns receiver
          (some (.ok item))) ∨
      s' = ({ s with queue := queue }.wrap receiver (.tryIter true)).returns receiver
          (some (.error {})) ∨
      (s.queue.queues.isEmpty = true ∧ s.queue.senderCount ≠ 0 ∧
        s' = ({ s with queue := queue }.wrap receiver (.tryIter false)).returns receiver
          none)) := by
  unfold tryNext at h
  simp only [Option.ite_none_left_eq_some] at h
  obtain ⟨_, h⟩ := h
  cases ended with
  | true =>
    cases h
    exact .inl ⟨rfl, rfl⟩
  | false =>
    simp only [Bool.false_eq_true, if_false, Option.map_eq_some_iff] at h
    obtain ⟨next, hstep, h⟩ := h
    obtain ⟨res, hres, h⟩ := bind_eq_ok.1 h
    obtain ⟨queue, rfl, h⟩ := bind_eq_ok.1 h
    refine .inr ⟨queue, hstep, rfl, ?_⟩
    rcases s.queue.tryPopReturns_eq coin with ⟨hfull, item, heq⟩ | ⟨_, _, heq⟩ |
      ⟨hempty, hthere, heq⟩
    · rw [heq] at hres
      cases hres
      cases h
      exact .inl ⟨hfull, item, rfl⟩
    · rw [heq] at hres
      cases hres
      cases h
      exact .inr (.inl rfl)
    · rw [heq] at hres
      cases hres
      cases h
      exact .inr (.inr ⟨hempty, hthere, rfl⟩)

/-- What `Iter::next` does, with or without a wait: it goes on, it returns an item, or the
    sender is gone. -/
theorem popped_cases
    (h : s.iterNext receiver coin = some (.ok s') ∨ s.iterWake receiver coin = some (.ok s')) :
    ∃ a queue, s.queue.step a = some (.ok queue) ∧
      (s' = { s with queue := queue } ∨
      (s.queue.queues.isEmpty = false ∧ ∃ item,
        s' = { s with queue := queue }.returns receiver (some (.ok item))) ∨
      (s.queue.queues.isEmpty = true ∧ s.queue.senderCount = 0 ∧
        s' = { s with queue := queue }.returns receiver none)) := by
  rcases h with h | h
  · unfold iterNext at h
    simp only [Option.map_eq_some_iff] at h
    obtain ⟨next, hstep, h⟩ := h
    obtain ⟨res, hres, h⟩ := bind_eq_ok.1 h
    obtain ⟨queue, rfl, h⟩ := bind_eq_ok.1 h
    refine ⟨_, queue, hstep, ?_⟩
    rcases s.queue.popReturns_eq coin with ⟨hfull, item, heq⟩ | ⟨hempty, hgone, heq⟩ | heq
    · rw [heq] at hres
      cases hres
      cases h
      exact .inr (.inl ⟨hfull, item, rfl⟩)
    · rw [heq] at hres
      cases hres
      cases h
      exact .inr (.inr ⟨hempty, hgone, rfl⟩)
    · rw [heq] at hres
      cases hres
      cases h
      exact .inl rfl
  · unfold iterWake at h
    simp only [Option.map_eq_some_iff] at h
    obtain ⟨next, hstep, h⟩ := h
    obtain ⟨res, hres, h⟩ := bind_eq_ok.1 h
    obtain ⟨queue, rfl, h⟩ := bind_eq_ok.1 h
    refine ⟨_, queue, hstep, ?_⟩
    rcases s.queue.wakeReturns_eq coin with ⟨hfull, item, heq⟩ | heq
    · rw [heq] at hres
      cases hres
      cases h
      exact .inr (.inl ⟨hfull, item, rfl⟩)
    · rw [heq] at hres
      cases hres
      cases h
      exact .inl rfl

/-! ### Every step -/

/-- A step is one of the queue, it turns a receiver into an iterator, or it is a `next`. -/
theorem step_cases
    (h : s.step a = some (.ok s')) :
    (∃ b queue, s.queue.step b = some (.ok queue) ∧ s' = { s with queue := queue }) ∨
    (∃ receiver w, s.wrapper receiver = .receiver ∧ s' = s.wrap receiver w) ∨
    (∃ receiver ended coin, a = .next receiver coin ∧ s.wrapper receiver = .tryIter ended ∧
      s.tryNext receiver ended coin = some (.ok s')) ∨
    (∃ receiver coin, s.wrapper receiver = .iter ∧
      (s.iterNext receiver coin = some (.ok s') ∨ s.iterWake receiver coin = some (.ok s'))) := by
  cases a with
  | queue a =>
    simp only [IteratorState.step, Option.ite_none_right_eq_some, Option.map_eq_some_iff] at h
    obtain ⟨_, next, hnext, hmap⟩ := h
    obtain ⟨queue, rfl, rfl⟩ := map_eq_ok.1 hmap
    exact .inl ⟨a, queue, hnext, rfl⟩
  | tryIter receiver | iter receiver =>
    simp only [IteratorState.step, Option.ite_none_right_eq_some, Option.some.injEq,
      Except.ok.injEq] at h
    exact .inr (.inl ⟨receiver, _, h.1.2, h.2.symm⟩)
  | next receiver coin =>
    simp only [IteratorState.step] at h
    split at h
    · cases h
    · rename_i ended hw
      exact .inr (.inr (.inl ⟨receiver, ended, coin, rfl, hw, h⟩))
    · rename_i hw
      exact .inr (.inr (.inr ⟨receiver, coin, hw, .inl h⟩))
  | wake receiver coin =>
    simp only [IteratorState.step, Option.ite_none_right_eq_some] at h
    exact .inr (.inr (.inr ⟨receiver, coin, h.1, .inr h.2⟩))

theorem Sound.tryNext (h : s.Sound other) (hw : s.wrapper receiver = .tryIter ended)
    (ha : other = receiver → ended = false → s.queue.queues.isEmpty = true →
      s.queue.senderCount = 0)
    (hnext : s.tryNext receiver ended coin = some (.ok s')) : s'.Sound other := by
  rcases tryNext_cases hnext with ⟨rfl, rfl⟩ | ⟨queue, hstep, rfl, hcases⟩
  · by_cases hother : other = receiver
    · subst hother
      exact h.ends (.inl hw) (returned_returns_self ..)
    · exact h.frame rfl (returned_returns_ne _ _ hother) id
  · by_cases hother : other = receiver
    · subst hother
      -- the flag is not set, so nothing was the end
      have hgoes : ¬ s.Ended other := by
        unfold Ended
        rw [hw]
        simp
      rcases hcases with ⟨_, item, rfl⟩ | rfl | ⟨hempty, hthere, _⟩
      · exact h.goesOn hgoes (returned_returns_self ..)
      · exact h.goesOn hgoes (returned_returns_self ..)
      · exact absurd (ha rfl rfl hempty) hthere
    · have hdry : s.queue.Dry → queue.Dry := fun hd => hd.step hstep
      rcases hcases with ⟨_, item, rfl⟩ | rfl | ⟨_, _, rfl⟩
      all_goals exact h.frame (wrapper_wrap_ne _ _ hother) (returned_returns_ne _ _ hother) hdry

theorem Sound.popped
    (h : s.Sound other) (hmanned : s.queue.Manned) (hw : s.wrapper receiver = .iter)
    (hnext : s.iterNext receiver coin = some (.ok s') ∨
      s.iterWake receiver coin = some (.ok s')) : s'.Sound other := by
  obtain ⟨a, queue, hstep, hcases⟩ := popped_cases hnext
  have hdry : s.queue.Dry → queue.Dry := fun hd => hd.step hstep
  rcases hcases with rfl | hcases
  · exact h.frame rfl rfl hdry
  by_cases hother : other = receiver
  · subst hother
    rcases hcases with ⟨hfull, item, rfl⟩ | ⟨hempty, hgone, rfl⟩
    · -- there is an item, so this is not the end
      have hgoes : ¬ s.Ended other := by
        unfold Ended
        rw [hw]
        rintro (htry | ⟨_, hd⟩)
        · cases htry
        · rw [hd.empty] at hfull
          cases hfull
      exact h.goesOn hgoes (returned_returns_self ..)
    · have hd : s.queue.Dry := ⟨hgone, hempty, hmanned.quiet hgone⟩
      exact h.ends (.inr ⟨hw, hdry hd⟩) (returned_returns_self ..)
  · rcases hcases with ⟨_, item, rfl⟩ | ⟨_, _, rfl⟩
    · exact h.frame rfl (returned_returns_ne _ _ hother) hdry
    · exact h.frame rfl (returned_returns_ne _ _ hother) hdry

/-- A receiver that is turned into an iterator has returned no `None`. -/
theorem Sound.wrap {w : Wrapper} (h : s.Sound other)
    (hw : s.wrapper receiver = .receiver) : (s.wrap receiver w).Sound other := by
  by_cases hother : other = receiver
  · subst hother
    refine ⟨h.fused, ?_⟩
    intro hnone
    have hended : s.Ended other := h.ended hnone
    unfold Ended at hended
    rw [hw] at hended
    simp at hended
  · exact h.frame (wrapper_wrap_ne _ _ hother) rfl id

/-- A step keeps what an iterator returned fused, unless it is the `next` of a `TryIter`
    that finds the queues empty while the sender is there. -/
theorem Sound.step
    (h : s.Sound other) (hmanned : s.queue.Manned)
    (ha : ∀ ended, s.wrapper other = .tryIter ended → Heeds s a)
    (hstep : s.step a = some (.ok s')) : s'.Sound other := by
  rcases step_cases hstep with ⟨b, queue, hqueue, rfl⟩ | ⟨receiver, w, hw, rfl⟩ |
    ⟨receiver, ended, coin, rfl, hw, hnext⟩ | ⟨receiver, coin, hw, hnext⟩
  · exact h.frame rfl rfl (fun hd => hd.step hqueue)
  · exact h.wrap hw
  · refine h.tryNext hw ?_ hnext
    rintro rfl rfl
    exact ha false hw hw
  · exact h.popped hmanned hw hnext

theorem step_manned (h : s.queue.Manned) (hstep : s.step a = some (.ok s')) : s'.queue.Manned := by
  rcases step_cases hstep with ⟨b, queue, hqueue, rfl⟩ | ⟨receiver, w, _, rfl⟩ |
    ⟨receiver, ended, coin, _, _, hnext⟩ | ⟨receiver, coin, _, hnext⟩
  · exact h.step hqueue
  · exact h
  · rcases tryNext_cases hnext with ⟨_, rfl⟩ | ⟨queue, hqueue, _, hcases⟩
    · exact h
    · rcases hcases with ⟨_, item, rfl⟩ | rfl | ⟨_, _, rfl⟩ <;> exact h.step hqueue
  · obtain ⟨b, queue, hqueue, hcases⟩ := popped_cases hnext
    rcases hcases with rfl | ⟨_, item, rfl⟩ | ⟨_, _, rfl⟩ <;> exact h.step hqueue

/-! ### Runs -/

theorem sound_new (receiver : Nat) : (new : IteratorState T).Sound receiver :=
  ⟨List.Pairwise.nil, fun hnone => by cases hnone⟩

/-- What holds in the runs that meet the condition. -/
structure AllSound (s : IteratorState T) : Prop where
  manned : s.queue.Manned
  sound : ∀ receiver, s.Sound receiver

theorem allSound_inductive : (machine T).Inductive Heeds AllSound where
  start := ⟨⟨fun _ => rfl, rfl⟩, sound_new⟩
  step := by
    intro s a s' h ha hstep
    exact ⟨step_manned h.manned hstep,
      fun receiver => (h.sound receiver).step h.manned (fun _ _ => ha) hstep⟩

theorem step_queue {a : PriorityQueueState.Action T}
    {queue : PriorityQueueState T} (huses : a.uses = none) (h : s.queue.step a = some (.ok queue)) :
    (machine T).step s (.queue a) = some (.ok { s with queue := queue }) := by
  show s.step (.queue a) = _
  unfold IteratorState.step
  simp [huses, h, Except.map]

/-- A `TryIter` that has not ended returns an item if there is one. -/
theorem next_item (coin : Priority → Bool)
    (hw : s.wrapper receiver = .tryIter false) (hfull : s.queue.queues.isEmpty = false)
    (hidle : s.queue.receivers[receiver]? = some .idle) (hunlocked : s.queue.unlocked = true) :
    ∃ s' item, (machine T).step s (.next receiver coin) = some (.ok s') ∧
      s'.returned receiver = s.returned receiver ++ [some (.ok item)] := by
  rcases s.queue.popReceived_eq coin with ⟨hempty, _⟩ | ⟨_, drawn, _, hpop⟩
  · rw [hfull] at hempty
    cases hempty
  have hstep : s.queue.step (.tryPop receiver coin) = some (.ok (s.queue.handOut drawn)) := by
    show (if _ then some (s.queue.tryPop coin) else none) = _
    rw [if_pos ⟨hidle, hunlocked⟩]
    exact congrArg some hpop
  rcases s.queue.tryPopReturns_eq coin with ⟨_, item, hres⟩ | ⟨hempty, _⟩ | ⟨hempty, _⟩
  · refine ⟨_, item, ?_, returned_returns_self
      ({ s with queue := s.queue.handOut drawn }.wrap receiver (.tryIter false)) receiver _⟩
    show s.step (.next receiver coin) = _
    simp only [IteratorState.step, hw, tryNext, hidle, ne_eq, not_true_eq_false, if_false,
      Bool.false_eq_true, hstep, Option.map_some, hres, ok_bind]
    rfl
  · rw [hfull] at hempty
    cases hempty
  · rw [hfull] at hempty
    cases hempty

theorem not_fused (returned : List (Option (Except RecvError T))) (item : Except RecvError T) :
    ¬ Fused (returned ++ [none] ++ [some item]) := by
  intro h
  unfold Fused at h
  rw [pairwise_append] at h
  have hnone := h.2.2 none (by simp) (some item) (by simp) rfl
  cases hnone

/-- A `None` that is not the end can be followed by an item. -/
theorem AllSound.spoils [Inhabited T]
    (h : s.AllSound) (hstep : s.step a = some (.ok s')) (ha : ¬ Heeds s a) :
    ∃ actions s'', (machine T).Meets Heeds s' actions ∧
      (machine T).run s' actions = some (.ok s'') ∧
      ¬ ∀ receiver, Fused (s''.returned receiver) := by
  cases a with
  | next receiver coin =>
    unfold Heeds at ha
    push Not at ha
    obtain ⟨hw, hempty, hthere⟩ := ha
    simp only [IteratorState.step, hw] at hstep
    rcases tryNext_cases hstep with ⟨hended, _⟩ | ⟨queue, hqueue, _, hcases⟩
    · cases hended
    obtain ⟨rfl, hidle, hunlocked⟩ := PriorityQueueState.tryPop_nothing hqueue hempty
    -- the call returned `None`, and its flag is not set
    have hs' : s'.queue = s.queue ∧ s'.wrapper receiver = .tryIter false ∧
        s'.returned receiver = s.returned receiver ++ [none] := by
      have hnone : s.queue.tryPopReturns coin = .ok (.ok none) := by
        rcases s.queue.tryPopReturns_eq coin with ⟨hfull, _⟩ | ⟨_, hgone, _⟩ | ⟨_, _, heq⟩
        · rw [hempty] at hfull
          cases hfull
        · exact absurd hgone hthere
        · exact heq
      unfold tryNext at hstep
      simp only [hidle, ne_eq, not_true_eq_false, if_false, Bool.false_eq_true, hqueue,
        Option.map_some, hnone, ok_bind, Option.some.injEq, Except.ok.injEq] at hstep
      subst hstep
      exact ⟨rfl, wrapper_wrap_self .., returned_returns_self ..⟩
    obtain ⟨hsame, hw', hreturned⟩ := hs'
    -- now an item is sent
    obtain ⟨woken, q₁, q₂, hsend, hpush, hfull, hidle₂, hunlocked₂⟩ :=
      h.manned.item_comes hthere hidle hunlocked default
    rw [← hsame] at hsend
    have h₁ := step_queue (s := s') rfl hsend
    have h₂ := step_queue (s := { s' with queue := q₁ }) rfl hpush
    obtain ⟨s₃, item, h₃, hreturned₃⟩ := next_item (s := { s' with queue := q₂ }) coin hw' hfull hidle₂
      hunlocked₂
    refine ⟨[.queue (.send .high default), .queue (.push s.queue.inFlight.length woken),
      .next receiver coin], s₃, ?_, ?_, ?_⟩
    · refine ⟨trivial, ?_⟩
      intro t₁ ht₁
      rw [h₁] at ht₁
      cases ht₁
      refine ⟨trivial, ?_⟩
      intro t₂ ht₂
      rw [h₂] at ht₂
      cases ht₂
      refine ⟨?_, fun _ _ => trivial⟩
      intro _ hempty₂
      rw [hfull] at hempty₂
      cases hempty₂
    · rw [Machine.run_cons_ok _ h₁, Machine.run_cons_ok _ h₂, Machine.run_cons_ok _ h₃,
        Machine.run_nil]
    · intro hall
      have hfused := hall receiver
      rw [hreturned₃] at hfused
      rw [hreturned] at hfused
      exact not_fused _ _ hfused
  | _ => exact absurd trivial ha

/-- The iterators are fused in a run in which no `TryIter` that has not ended is asked for
    an item while the queues are empty and the sender is there.  After one such call the run
    can go on so that a `None` is followed by an item. -/
theorem iterators_fused [Inhabited T] :
    (machine T).Exact Heeds (fun s => ∀ receiver, Fused (s.returned receiver)) := by
  apply allSound_inductive.exact
  · intro s h receiver
    exact (h.sound receiver).fused
  · intro s a s' h hstep ha
    exact h.spoils hstep ha

/-- The queues are empty for a moment. -/
theorem tryIter_not_fused :
    ¬ ∀ s : IteratorState Nat, (machine Nat).Reaches (fun _ _ => True) s →
      ∀ receiver, Fused (s.returned receiver) := by
  intro h
  have hrun : ∃ s, (machine Nat).run new
      [.tryIter 0, .next 0 (fun _ => false), .queue (.send .high 7), .queue (.push 0 none),
        .next 0 (fun _ => false)] = some (.ok s) ∧ ¬ Fused (s.returned 0) :=
    ⟨_, rfl, not_fused [] (.ok 7)⟩
  obtain ⟨s, hrun, hnot⟩ := hrun
  exact hnot (h s (Machine.Reaches.start.run (.of_forall (fun _ _ _ => trivial) _) hrun) 0)

end IteratorState

end Gpui
