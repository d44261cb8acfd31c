import Gpui.Queue.PriorityQueueSpec

/-! # The sender is dropped

    A receiver reads the number of senders once, before the loop in which it waits, and
    nobody is notified when the sender is dropped.  So a receiver learns that the sender is
    gone exactly when it is not in that loop at the time the queues run dry. -/

namespace Gpui

open List

variable {T : Type}

namespace PriorityQueues

/-- The number of items. -/
def length (queues : PriorityQueues T) : Nat :=
  queues.highPriority.length + queues.mediumPriority.length + queues.lowPriority.length

theorem isEmpty_iff_length {queues : PriorityQueues T} :
    queues.isEmpty = true ↔ queues.length = 0 := by
  unfold isEmpty length
  simp only [Bool.and_eq_true, isEmpty_iff_length_eq_zero]
  omega

theorem Takes.length {queues : PriorityQueues T} {drawn : Drawn T} (h : queues.Takes drawn) :
    queues.length = drawn.2.length + 1 := by
  obtain ⟨priority, item, _, hself, hother⟩ := h
  have hlength := congrArg List.length hself
  rw [length_cons] at hlength
  have hsame : ∀ other, other ≠ priority →
      (drawn.2.queue other).length = (queues.queue other).length := by
    intro other hne
    rw [hother other hne]
  have hhigh := hsame .high
  have hmedium := hsame .medium
  have hlow := hsame .low
  unfold PriorityQueues.length
  cases priority with
  | realtimeAudio => cases hself
  | _ =>
    simp only [queue, ne_eq, reduceCtorEq, not_false_eq_true, true_implies] at hlength hhigh hmedium hlow
    omega

end PriorityQueues

namespace PriorityQueueState

/-- A receiver sleeps in `pop`, nothing notifies it, and nothing can come any more. -/
def Stranded (s : PriorityQueueState T) : Prop :=
  s.senderCount = 0 ∧ s.queues.isEmpty = true ∧ .waiting ∈ s.receivers

/-- A receiver other than this one is in the loop of `recv`. -/
def Awaited (s : PriorityQueueState T) (receiver : Nat) : Prop :=
  ∃ other r, other ≠ receiver ∧ s.receivers[other]? = some r ∧ r.inRecv = true

/-- The sender is dropped over empty queues, and the last item is taken after that, only
    while no other receiver is in the loop of `recv`. -/
def Heeds (s : PriorityQueueState T) : Action T → Prop
  | .dropSender => s.queues.isEmpty = true → ∀ r ∈ s.receivers, r.inRecv = false
  | .pop receiver _ | .wake receiver _ | .tryPop receiver _ | .spinTryPop receiver _ =>
      s.senderCount = 0 → s.queues.length = 1 → ¬ s.Awaited receiver
  | _ => True

variable {s s' : PriorityQueueState T} {a : Action T} {receiver : Nat}

theorem heeds_pops
    (h : a.pops = some receiver) :
    Heeds s a ↔ (s.senderCount = 0 → s.queues.length = 1 → ¬ s.Awaited receiver) := by
  cases a with
  | pop i coin => cases h; exact Iff.rfl
  | wake i coin => cases h; exact Iff.rfl
  | tryPop i coin => cases h; exact Iff.rfl
  | spinTryPop i coin => cases h; exact Iff.rfl
  | _ => cases h

/-! ### While the condition is met -/

/-- Once the sender is gone, nothing is sent, and a receiver is in the loop of `recv` only
    while there are items. -/
structure Informed (s : PriorityQueueState T) : Prop where
  one : s.senderCount ≤ 1
  quiet : s.senderCount = 0 → s.inFlight = []
  left : s.senderCount = 0 → s.queues.isEmpty = true → ∀ r ∈ s.receivers, r.inRecv = false

theorem Informed.not_stranded (h : s.Informed) : ¬ s.Stranded := by
  rintro ⟨hgone, hempty, hwaiting⟩
  have hfalse := h.left hgone hempty _ hwaiting
  cases hfalse

/-- A step that leaves the queues and the sender alone, and adds no receiver to the loop. -/
theorem Informed.same (h : s.Informed)
    (hqueues : s'.queues = s.queues) (hsender : s'.senderCount = s.senderCount)
    (hinFlight : s.senderCount = 0 → s'.inFlight = s.inFlight)
    (hreceivers : s.senderCount = 0 → s.queues.isEmpty = true →
      ∀ r ∈ s'.receivers, r ∈ s.receivers ∨ r.inRecv = false) : s'.Informed where
  one := by
    rw [hsender]
    exact h.one
  quiet := by
    intro hgone
    rw [hsender] at hgone
    rw [hinFlight hgone, h.quiet hgone]
  left := by
    intro hgone hempty r hr
    rw [hsender] at hgone
    rw [hqueues] at hempty
    cases hreceivers hgone hempty r hr with
    | inl hmem => exact h.left hgone hempty r hmem
    | inr hfalse => exact hfalse

/-- A receiver takes an item: if it was the last one, nobody else was in the loop. -/
theorem Informed.take (h : s.Informed)
    {drawn : PriorityQueues.Drawn T} (htakes : s.queues.Takes drawn)
    (halone : s.senderCount = 0 → s.queues.length = 1 → ¬ s.Awaited receiver) :
    ((s.handOut drawn).setReceiver receiver .idle).Informed where
  one := h.one
  quiet := h.quiet
  left := by
    intro hgone hempty r hr
    have hlast : s.queues.length = 1 := by
      have hzero : drawn.2.length = 0 := PriorityQueues.isEmpty_iff_length.1 hempty
      rw [htakes.length, hzero]
    by_contra hin
    rw [Bool.not_eq_false] at hin
    obtain ⟨other, hother⟩ := mem_iff_getElem?.1 hr
    have hset : (s.receivers.set receiver .idle)[other]? = some r := hother
    rw [getElem?_set] at hset
    split at hset
    · split at hset
      · cases hset
        cases hin
      · cases hset
    · rename_i hne
      exact halone hgone hlast ⟨other, r, fun heq => hne heq.symm, hset, hin⟩

theorem push_senderCount {send : Nat} {woken : Option Nat} (h : s.push send woken = some (.ok s')) :
    s.inFlight ≠ [] ∧ s'.senderCount = s.senderCount := by
  unfold PriorityQueueState.push at h
  split at h
  · cases h
  · rename_i priority item hsend
    refine ⟨ne_nil_of_mem (mem_of_getElem? hsend), ?_⟩
    split at h
    · cases h
    · simp only [Option.map_eq_some_iff, Except.ok.injEq, exists_eq_right] at h
      exact (notifyOne_frame h).2.2.2.2

theorem Informed.step (h : s.Informed)
    (ha : Heeds s a) (hstep : s.step a = some (.ok s')) : s'.Informed := by
  cases hpops : a.pops with
  | some receiver =>
    obtain ⟨_, drawn, htakes, hr⟩ | ⟨hempty, x, hr, hx⟩ := step_pops hpops hstep
    · cases hr
      exact h.take htakes ((heeds_pops hpops).1 ha)
    · cases hr
      refine h.same rfl rfl (fun _ => rfl) ?_
      intro hgone _ r hmem
      obtain hmem | rfl := mem_or_eq_of_mem_set hmem
      · exact .inl hmem
      · right
        obtain rfl | ⟨_, hthere⟩ | ⟨_, hnotified⟩ := hx
        · rfl
        · exact absurd hgone hthere
        · -- it was in the loop before it was woken
          have hfalse := h.left hgone hempty _ (mem_of_getElem? hnotified)
          cases hfalse
  | none =>
    unfold PriorityQueueState.step at hstep
    cases a with
    | send priority item =>
      simp only [Option.ite_none_left_eq_some, Option.some.injEq, Except.ok.injEq] at hstep
      obtain ⟨hthere, rfl⟩ := hstep
      unfold PriorityQueueState.send
      split
      · exact h
      · exact h.same rfl rfl (fun hgone => absurd hgone hthere) (fun _ _ r hr => .inl hr)
    | spinSend priority item =>
      simp only [Option.ite_none_left_eq_some, Option.some.injEq, Except.ok.injEq] at hstep
      obtain ⟨hthere, rfl⟩ := hstep
      unfold PriorityQueueState.spinSend PriorityQueueState.send
      split
      · exact h
      · exact h.same rfl rfl (fun hgone => absurd hgone hthere) (fun _ _ r hr => .inl hr)
    | push send woken =>
      simp only [Option.ite_none_right_eq_some] at hstep
      -- a send is running, so the sender is not gone
      obtain ⟨hsends, hsender⟩ := push_senderCount hstep.2
      have hthere : s'.senderCount ≠ 0 := by
        rw [hsender]
        exact fun hgone => hsends (h.quiet hgone)
      exact ⟨hsender ▸ h.one, fun hgone => absurd hgone hthere, fun hgone => absurd hgone hthere⟩
    | dropSender =>
      simp only [Option.ite_none_left_eq_some, Option.some.injEq, Except.ok.injEq, not_or,
        not_not] at hstep
      obtain ⟨⟨_, hsends⟩, rfl⟩ := hstep
      exact ⟨Nat.le_trans (Nat.sub_le _ _) h.one, fun _ => hsends, fun _ hempty => ha hempty⟩
    | clone receiver =>
      obtain ⟨_, rfl⟩ := Machine.guarded_ok_iff.1 hstep
      refine h.same rfl rfl (fun _ => rfl) ?_
      intro _ _ r hr
      rw [mem_append, mem_singleton] at hr
      obtain hr | rfl := hr
      · exact .inl hr
      · exact .inr rfl
    | dropReceiver receiver =>
      obtain ⟨_, rfl⟩ := Machine.guarded_ok_iff.1 hstep
      refine h.same rfl rfl (fun _ => rfl) ?_
      intro _ _ r hr
      obtain hr | rfl := mem_or_eq_of_mem_set hr
      · exact .inl hr
      · exact .inr rfl
    | wait receiver =>
      obtain ⟨hchecked, rfl⟩ := Machine.guarded_ok_iff.1 hstep
      refine h.same rfl rfl (fun _ => rfl) ?_
      intro hgone hempty r hr
      have hfalse := h.left hgone hempty _ (mem_of_getElem? hchecked)
      cases hfalse
    | _ => cases hpops

/-! ### When it is not -/

theorem mem_setReceiver {r : Receiver} (x : Receiver) (h : s.receivers[receiver]? = some r) :
    x ∈ (s.setReceiver receiver x).receivers := by
  obtain ⟨hlt, _⟩ := List.getElem?_eq_some_iff.1 h
  exact mem_set hlt x

/-- A receiver in the loop goes to sleep for good once nothing can come any more. -/
theorem strands (hgone : s.senderCount = 0)
    (hempty : s.queues.isEmpty = true) (hin : ∃ r ∈ s.receivers, r.inRecv = true) :
    ∃ actions s', (machine T).Meets Heeds s actions ∧
      (machine T).run s actions = some (.ok s') ∧ s'.Stranded := by
  -- a receiver that is about to wait has the lock, so it is the first to go on
  by_cases hchecked : .checked ∈ s.receivers
  · obtain ⟨i, hi⟩ := mem_iff_getElem?.1 hchecked
    refine ⟨[.wait i], s.setReceiver i .waiting, ⟨trivial, fun _ _ => trivial⟩, ?_, hgone, hempty,
      mem_setReceiver _ hi⟩
    have hstep : (machine T).step s (.wait i) = some (.ok (s.setReceiver i .waiting)) := if_pos hi
    rw [Machine.run_cons_ok _ hstep, Machine.run_nil]
  · obtain ⟨r, hr, hin⟩ := hin
    cases r with
    | checked => exact absurd hr hchecked
    | waiting => exact ⟨[], s, trivial, rfl, hgone, hempty, hr⟩
    | notified =>
      obtain ⟨i, hi⟩ := mem_iff_getElem?.1 hr
      refine ⟨[.wake i (fun _ => false)], s.setReceiver i .waiting,
        ⟨?_, fun _ _ => trivial⟩, ?_, hgone, hempty, mem_setReceiver _ hi⟩
      · -- nothing is handed out
        intro _ hlast
        rw [PriorityQueues.isEmpty_iff_length] at hempty
        omega
      have hunlocked : s.unlocked = true := by
        unfold unlocked
        simpa using hchecked
      have hstep : (machine T).step s (.wake i (fun _ => false)) =
          some (.ok (s.setReceiver i .waiting)) := by
        show s.step (.wake i (fun _ => false)) = _
        unfold PriorityQueueState.step PriorityQueueState.wake
        simp [hi, hunlocked, hempty]
      rw [Machine.run_cons_ok _ hstep, Machine.run_nil]
    | idle => cases hin
    | dropped => cases hin

theorem Informed.spoils (h : s.Informed) (hstep : s.step a = some (.ok s')) (ha : ¬ Heeds s a) :
    ∃ actions s'', (machine T).Meets Heeds s' actions ∧
      (machine T).run s' actions = some (.ok s'') ∧ s''.Stranded := by
  cases hpops : a.pops with
  | some receiver =>
    rw [heeds_pops hpops] at ha
    push Not at ha
    obtain ⟨hgone, hlast, other, r, hne, hother, hin⟩ := ha
    obtain ⟨_, drawn, htakes, hr⟩ | ⟨hempty, _⟩ := step_pops hpops hstep
    · cases hr
      refine strands (s := (s.handOut drawn).setReceiver receiver .idle) hgone ?_ ?_
      · have hlength := htakes.length
        rw [PriorityQueues.isEmpty_iff_length]
        show drawn.2.length = 0
        omega
      · refine ⟨r, mem_iff_getElem?.2 ⟨other, ?_⟩, hin⟩
        show (s.receivers.set receiver .idle)[other]? = some r
        rw [getElem?_set_ne hne.symm, hother]
    · rw [PriorityQueues.isEmpty_iff_length] at hempty
      omega
  | none =>
    cases a with
    | dropSender =>
      unfold PriorityQueueState.step at hstep
      simp only [Option.ite_none_left_eq_some, Option.some.injEq, Except.ok.injEq, not_or] at hstep
      obtain ⟨⟨hthere, _⟩, rfl⟩ := hstep
      unfold Heeds at ha
      push Not at ha
      obtain ⟨hempty, r, hr, hin⟩ := ha
      have hone := h.one
      have hzero : s.senderCount - 1 = 0 := by omega
      exact strands hzero hempty ⟨r, hr, by simpa using hin⟩
    | pop i coin => cases hpops
    | wake i coin => cases hpops
    | tryPop i coin => cases hpops
    | spinTryPop i coin => cases hpops
    | _ => exact absurd trivial ha

theorem informed_inductive : (machine T).Inductive Heeds Informed where
  start := by
    refine ⟨Nat.le_refl 1, ?_, ?_⟩
    · intro hgone
      cases hgone
    · intro hgone
      cases hgone
  step := fun _ _ _ h ha hstep => h.step ha hstep

/-- No receiver is stranded in a run in which, when the queues run dry after the sender is
    gone, no other receiver is in the loop of `recv`.  In any other run one can be. -/
theorem receivers_learn : (machine T).Exact Heeds (fun s => ¬ s.Stranded) := by
  apply informed_inductive.exact
  · intro s h
    exact h.not_stranded
  · intro s a s' h hstep ha
    obtain ⟨actions, s'', hmeets, hrun, hstranded⟩ := h.spoils hstep ha
    exact ⟨actions, s'', hmeets, hrun, fun hnot => hnot hstranded⟩

/-- The receiver waits for an item when the sender is dropped. -/
theorem receiver_stranded :
    ¬ ∀ s : PriorityQueueState Nat, (machine Nat).Reaches (fun _ _ => True) s → ¬ s.Stranded := by
  intro h
  have hrun : ∃ s, (machine Nat).run new
      [.pop 0 (fun _ => false), .wait 0, .dropSender] = some (.ok s) ∧ s.Stranded :=
    ⟨_, rfl, rfl, rfl, mem_singleton.2 rfl⟩
  obtain ⟨s, hrun, hstranded⟩ := hrun
  exact h s (Machine.Reaches.start.run (.of_forall (fun _ _ _ => trivial) _) hrun) hstranded

end PriorityQueueState

end Gpui
