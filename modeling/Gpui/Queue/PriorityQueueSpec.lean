import Gpui.Queue.PriorityQueue
import Gpui.Lib.Exec

/-! # The priority queue delivers everything once

    The items of one priority are handed out in the order in which they were sent, each
    at most once, and nothing panics.  The draws find an item whenever there is one: the
    mass that is left is always the weight of the queues that are left. -/

open Exec

namespace Gpui

open List

variable {T : Type}

namespace PriorityQueues

/-! ### The draws -/

/-- The first item of one queue was taken out, and nothing else. -/
def Takes (queues : PriorityQueues T) (drawn : Drawn T) : Prop :=
  ∃ priority item, drawn.1 = some (priority, item) ∧
    queues.queue priority = item :: drawn.2.queue priority ∧
    ∀ other, other ≠ priority → drawn.2.queue other = queues.queue other

theorem randomRatio_eq {numerator denominator : Nat} (coin : Bool) (hpos : 0 < numerator)
    (hle : numerator ≤ denominator) :
    randomRatio numerator denominator coin = .ok (numerator = denominator || coin) := by
  have hnot : ¬ (numerator = 0 ∨ denominator < numerator) := by omega
  exact if_neg hnot

theorem subMass_eq {mass weight : Nat} (h : weight ≤ mass) :
    subMass mass weight = .ok (mass - weight) := by
  exact if_neg (by omega)

variable {queues : PriorityQueues T}

theorem weightOf_nil (priority : Priority)
    (h : queues.queue priority = []) : queues.weightOf priority = 0 := by
  unfold weightOf
  rw [h]
  rfl

theorem weightOf_cons (priority : Priority) {item : T}
    {rest : List T} (h : queues.queue priority = item :: rest) :
    queues.weightOf priority = priority.weight := by
  unfold weightOf
  rw [h]
  simp

theorem drawLow_takes (coin : Priority → Bool) (h : queues.lowPriority ≠ []) :
    Returns queues.Takes (queues.drawLow coin (queues.weightOf .low)) := by
  unfold drawLow
  split
  · rename_i hnil
    exact absurd hnil h
  · rename_i item rest hlow
    -- the mass is the weight, so the coin has no say
    rw [weightOf_cons .low hlow, randomRatio_eq _ (by decide) (by decide)]
    simp only [decide_true, Bool.true_or, ok_bind, if_true, returns_ok]
    refine ⟨.low, item, rfl, hlow, ?_⟩
    intro other hother
    cases other with
    | low => exact absurd rfl hother
    | _ => rfl

theorem drawMedium_takes (coin : Priority → Bool)
    (h : queues.mediumPriority ≠ [] ∨ queues.lowPriority ≠ []) :
    Returns queues.Takes
      (queues.drawMedium coin (queues.weightOf .medium + queues.weightOf .low)) := by
  unfold drawMedium
  split
  · rename_i hnil
    rw [weightOf_nil .medium hnil, Nat.zero_add]
    apply drawLow_takes
    simpa [hnil] using h
  · rename_i item rest hmedium
    rw [weightOf_cons .medium hmedium, randomRatio_eq _ (by decide) (by omega), ok_bind]
    split
    · rw [returns_ok]
      refine ⟨.medium, item, rfl, hmedium, ?_⟩
      intro other hother
      cases other with
      | medium => exact absurd rfl hother
      | _ => rfl
    · rename_i hflip
      rw [subMass_eq (by omega), ok_bind, Nat.add_sub_cancel_left]
      apply drawLow_takes
      -- without an item below, the ratio would have been one
      intro hnil
      rw [weightOf_nil .low hnil] at hflip
      simp at hflip

/-- Whatever the coins say, a draw from queues that are not empty takes an item out. -/
theorem draw_takes (coin : Priority → Bool)
    (h : queues.isEmpty = false) : Returns queues.Takes (queues.draw coin) := by
  unfold isEmpty at h
  unfold draw drawHigh
  split
  · rename_i hnil
    rw [weightOf_nil .high hnil, Nat.zero_add]
    apply drawMedium_takes
    simpa [hnil, Classical.or_iff_not_imp_left] using h
  · rename_i item rest hhigh
    rw [weightOf_cons .high hhigh, randomRatio_eq _ (by decide) (by omega), ok_bind]
    split
    · rw [returns_ok]
      refine ⟨.high, item, rfl, hhigh, ?_⟩
      intro other hother
      cases other with
      | high => exact absurd rfl hother
      | _ => rfl
    · rename_i hflip
      rw [subMass_eq (by omega), ok_bind, Nat.add_assoc, Nat.add_sub_cancel_left]
      apply drawMedium_takes
      by_contra hempty
      have hnil : queues.mediumPriority = [] ∧ queues.lowPriority = [] := by
        simpa using hempty
      rw [weightOf_nil .medium hnil.1, weightOf_nil .low hnil.2] at hflip
      simp at hflip

theorem push_eq (queues : PriorityQueues T) {priority : Priority} (item : T)
    (h : priority ≠ .realtimeAudio) :
    ∃ queues', queues.push priority item = .ok queues' ∧
      queues'.queue priority = queues.queue priority ++ [item] ∧
      ∀ other, other ≠ priority → queues'.queue other = queues.queue other := by
  cases priority with
  | realtimeAudio => exact absurd rfl h
  | _ =>
    refine ⟨_, rfl, rfl, ?_⟩
    intro other hother
    cases other with
    | _ => first | rfl | exact absurd rfl hother

end PriorityQueues

namespace PriorityQueueState

/-! ### What was sent and what was handed out -/

/-- The items of a priority, in order. -/
def sentWith (priority : Priority) (items : List (Priority × T)) : List T :=
  (items.filter (fun sent => sent.1 = priority)).map Prod.snd

@[simp] theorem sentWith_append (priority : Priority) (items items' : List (Priority × T)) :
    sentWith priority (items ++ items') = sentWith priority items ++ sentWith priority items' := by
  unfold sentWith
  rw [filter_append, map_append]

@[simp] theorem sentWith_self (priority : Priority) (item : T) :
    sentWith priority [(priority, item)] = [item] := by
  simp [sentWith]

theorem sentWith_other {priority other : Priority} (item : T) (h : other ≠ priority) :
    sentWith other [(priority, item)] = [] := by
  simp [sentWith, h.symm]

theorem count_sentWith [DecidableEq T] (priority : Priority) (item : T)
    (items : List (Priority × T)) :
    (sentWith priority items).count item = items.count (priority, item) := by
  unfold sentWith
  induction items with
  | nil => rfl
  | cons sent items ih =>
    obtain ⟨p, t⟩ := sent
    by_cases hp : p = priority
    · simp [hp, count_cons, ih]
    · simp [hp, ih]

/-- What holds in every state of the queue. -/
structure Delivers (s : PriorityQueueState T) : Prop where
  /-- Of each priority, what was sent is what was handed out and then what is queued. -/
  inOrder : ∀ priority,
    sentWith priority s.accepted = sentWith priority s.handed ++ s.queues.queue priority
  /-- No item is handed out more often than it was sent before. -/
  once : s.handed.Subperm s.accepted

/-- The sends are of priorities that are queued. -/
def Queued (_ : PriorityQueueState T) : Action T → Prop
  | .send priority _ | .spinSend priority _ => priority ≠ .realtimeAudio
  | _ => True

/-- What was sent and not handed out is in the queues, and what is about to be sent can be
    put there. -/
structure Kept (s : PriorityQueueState T) : Prop where
  inOrder : ∀ priority,
    sentWith priority s.accepted = sentWith priority s.handed ++ s.queues.queue priority
  inFlight : ∀ sent ∈ s.inFlight, sent.1 ≠ .realtimeAudio

variable {s : PriorityQueueState T} {r : Except QueuePanic (PriorityQueueState T)}

theorem Kept.delivers (h : s.Kept) : s.Delivers where
  inOrder := h.inOrder
  once := by
    classical
    rw [subperm_ext_iff]
    intro sent _
    rw [← count_sentWith, ← count_sentWith, h.inOrder, count_append]
    exact Nat.le_add_right _ _

variable {s' : PriorityQueueState T} {woken : Option Nat} {receiver : Nat} {a : Action T}

/-- A state with the same queues and the same history. -/
theorem Kept.same (h : s.Kept) (hqueues : s'.queues = s.queues)
    (hinFlight : s'.inFlight = s.inFlight) (haccepted : s'.accepted = s.accepted)
    (hhanded : s'.handed = s.handed) : s'.Kept where
  inOrder := by
    rw [hqueues, haccepted, hhanded]
    exact h.inOrder
  inFlight := by
    rw [hinFlight]
    exact h.inFlight

theorem Kept.send (h : s.Kept) {priority : Priority} (item : T)
    (hpriority : priority ≠ .realtimeAudio) : (s.send priority item).Kept := by
  unfold PriorityQueueState.send
  split
  · exact h
  · refine ⟨h.inOrder, ?_⟩
    intro sent hsent
    rw [mem_append, mem_singleton] at hsent
    obtain hsent | rfl := hsent
    · exact h.inFlight sent hsent
    · exact hpriority

theorem notifyOne_frame (h : s.notifyOne woken = some s') :
    s'.queues = s.queues ∧ s'.inFlight = s.inFlight ∧ s'.accepted = s.accepted ∧
      s'.handed = s.handed ∧ s'.senderCount = s.senderCount := by
  unfold notifyOne at h
  split at h
  · split at h
    · cases h
    · cases h
      exact ⟨rfl, rfl, rfl, rfl, rfl⟩
  · split at h
    · cases h
      exact ⟨rfl, rfl, rfl, rfl, rfl⟩
    · cases h

/-- A send that gets the lock puts its item at the end of a queue. -/
theorem Kept.push (h : s.Kept) {send : Nat} (hpush : s.push send woken = some r) :
    ∃ s', r = .ok s' ∧ s'.Kept := by
  unfold PriorityQueueState.push at hpush
  split at hpush
  · cases hpush
  · rename_i priority item hsend
    have hpriority := h.inFlight _ (mem_of_getElem? hsend)
    obtain ⟨queues, hqueues, hself, hother⟩ :=
      s.queues.push_eq item hpriority
    simp only [hqueues, Option.map_eq_some_iff] at hpush
    obtain ⟨s', hnotify, rfl⟩ := hpush
    refine ⟨s', rfl, ?_⟩
    obtain ⟨hq, hi, ha, hh, _⟩ := notifyOne_frame hnotify
    apply Kept.same _ hq hi ha hh
    refine ⟨?_, ?_⟩
    · intro p
      show sentWith p (s.accepted ++ [(priority, item)]) = _
      rw [sentWith_append, h.inOrder, append_assoc]
      by_cases hp : p = priority
      · rw [hp, sentWith_self, hself]
      · rw [sentWith_other item hp, append_nil, hother p hp]
    · intro sent hsent
      exact h.inFlight sent (mem_of_mem_eraseIdx hsent)

theorem Kept.handOut (h : s.Kept) {drawn : PriorityQueues.Drawn T}
    (htakes : s.queues.Takes drawn) : (s.handOut drawn).Kept := by
  obtain ⟨priority, item, hdrawn, hself, hother⟩ := htakes
  refine ⟨?_, h.inFlight⟩
  intro p
  show sentWith p s.accepted = sentWith p (s.handed ++ drawn.1.toList) ++ drawn.2.queue p
  rw [hdrawn, Option.toList_some, sentWith_append, h.inOrder, append_assoc]
  by_cases hp : p = priority
  · rw [hp, sentWith_self, hself]
    rfl
  · rw [sentWith_other item hp, hother p hp, nil_append]

/-! ### The calls of the receivers -/

/-- The receiver that looks for an item in a step. -/
def Action.pops : Action T → Option Nat
  | .pop receiver _ | .wake receiver _ | .tryPop receiver _ | .spinTryPop receiver _ =>
      some receiver
  | _ => none

theorem setReceiver_same {r : Receiver} (h : s.receivers[receiver]? = some r) :
    s.setReceiver receiver r = s := by
  obtain ⟨hlt, hget⟩ := List.getElem?_eq_some_iff.1 h
  unfold setReceiver
  rw [← hget, set_getElem_self]

theorem popUnwrap_eq (s : PriorityQueueState T) (receiver : Nat) (coin : Priority → Bool)
    (h : s.queues.isEmpty = false) :
    ∃ drawn, s.queues.Takes drawn ∧
      s.popUnwrap receiver coin = .ok ((s.handOut drawn).setReceiver receiver .idle) := by
  obtain ⟨drawn, hdraw, htakes⟩ := PriorityQueues.draw_takes coin h
  refine ⟨drawn, htakes, ?_⟩
  obtain ⟨priority, item, hsome, _⟩ := htakes
  unfold popUnwrap
  rw [hdraw, ok_bind, hsome]

theorem popReceived_eq (s : PriorityQueueState T) (coin : Priority → Bool) :
    (s.queues.isEmpty = true ∧ s.popReceived s.tryRecv coin = .ok s) ∨
      (s.queues.isEmpty = false ∧ ∃ drawn, s.queues.Takes drawn ∧
        s.popReceived s.tryRecv coin = .ok (s.handOut drawn)) := by
  unfold tryRecv
  by_cases hempty : s.queues.isEmpty = true
  · left
    refine ⟨hempty, ?_⟩
    by_cases hgone : s.senderCount = 0
    · simp [hempty, hgone, popReceived]
    · simp [hempty, hgone, popReceived]
  · right
    rw [Bool.not_eq_true] at hempty
    obtain ⟨drawn, hdraw, htakes⟩ := PriorityQueues.draw_takes coin hempty
    refine ⟨hempty, drawn, htakes, ?_⟩
    simp [hempty, popReceived, hdraw, Except.map]

/-- What a receiver that looks for an item does: it takes one out, or, where there is
    none, returns or goes on with its wait. -/
def Pops (s : PriorityQueueState T) (receiver : Nat)
    (r : Except QueuePanic (PriorityQueueState T)) : Prop :=
  (s.queues.isEmpty = false ∧ ∃ drawn, s.queues.Takes drawn ∧
    r = .ok ((s.handOut drawn).setReceiver receiver .idle)) ∨
  (s.queues.isEmpty = true ∧ ∃ x, r = .ok (s.setReceiver receiver x) ∧
    (x = .idle ∨ (x = .checked ∧ s.senderCount ≠ 0) ∨
      (x = .waiting ∧ s.receivers[receiver]? = some .notified)))

theorem step_pops (hpops : a.pops = some receiver) (hstep : s.step a = some r) :
    s.Pops receiver r := by
  -- a call that does not block leaves its receiver idle
  have htry : ∀ coin, s.receivers[receiver]? = some .idle →
      s.popReceived s.tryRecv coin = r → s.Pops receiver r := by
    intro coin hidle hr
    unfold Pops
    obtain ⟨hempty, hsame⟩ | ⟨hempty, drawn, htakes, htook⟩ := s.popReceived_eq coin
    · right
      refine ⟨hempty, .idle, ?_, .inl rfl⟩
      rw [setReceiver_same hidle, ← hr, hsame]
    · left
      refine ⟨hempty, drawn, htakes, ?_⟩
      have hdrawn : (s.handOut drawn).receivers[receiver]? = some .idle := hidle
      rw [setReceiver_same hdrawn, ← hr, htook]
  unfold step at hstep
  unfold Pops
  cases a with
  | pop i coin =>
    cases hpops
    simp only [Option.ite_none_right_eq_some, Option.some.injEq] at hstep
    obtain ⟨⟨hidle, _⟩, rfl⟩ := hstep
    unfold PriorityQueueState.pop
    cases hempty : s.queues.isEmpty with
    | false =>
      left
      obtain ⟨drawn, htakes, hpop⟩ := s.popUnwrap_eq receiver coin hempty
      exact ⟨rfl, drawn, htakes, by simpa using hpop⟩
    | true =>
      right
      by_cases hgone : s.senderCount = 0
      · refine ⟨rfl, .idle, ?_, .inl rfl⟩
        rw [setReceiver_same hidle]
        simp [hgone]
      · refine ⟨rfl, .checked, ?_, .inr (.inl ⟨rfl, hgone⟩)⟩
        simp [hgone]
  | wake i coin =>
    cases hpops
    simp only [Option.ite_none_right_eq_some, Option.some.injEq] at hstep
    obtain ⟨⟨hnotified, _⟩, rfl⟩ := hstep
    unfold PriorityQueueState.wake
    cases hempty : s.queues.isEmpty with
    | false =>
      left
      obtain ⟨drawn, htakes, hpop⟩ := s.popUnwrap_eq receiver coin hempty
      exact ⟨rfl, drawn, htakes, by simpa using hpop⟩
    | true =>
      right
      exact ⟨rfl, .waiting, by simp, .inr (.inr ⟨rfl, hnotified⟩)⟩
  | tryPop _ coin | spinTryPop _ coin =>
    cases hpops
    simp only [Option.ite_none_right_eq_some, Option.some.injEq] at hstep
    exact htry coin hstep.1.1 hstep.2
  | _ => cases hpops

/-! ### Everything once -/

theorem Kept.step (h : s.Kept) (ha : Queued s a) (hstep : s.step a = some r) :
    ∃ s', r = .ok s' ∧ s'.Kept := by
  cases hpops : a.pops with
  | some receiver =>
    obtain ⟨_, drawn, htakes, rfl⟩ | ⟨_, x, rfl, _⟩ := step_pops hpops hstep
    · exact ⟨_, rfl, (h.handOut htakes).same rfl rfl rfl rfl⟩
    · exact ⟨_, rfl, h.same rfl rfl rfl rfl⟩
  | none =>
    unfold PriorityQueueState.step at hstep
    cases a with
    | send _ item | spinSend _ item =>
      simp only [Option.ite_none_left_eq_some, Option.some.injEq] at hstep
      obtain ⟨_, rfl⟩ := hstep
      exact ⟨_, rfl, h.send item ha⟩
    | push send woken =>
      simp only [Option.ite_none_right_eq_some] at hstep
      exact h.push hstep.2
    | dropSender =>
      simp only [Option.ite_none_left_eq_some, Option.some.injEq] at hstep
      obtain ⟨_, rfl⟩ := hstep
      exact ⟨_, rfl, h.same rfl rfl rfl rfl⟩
    | clone _ | dropReceiver _ | wait _ =>
      simp only [Option.ite_none_right_eq_some, Option.some.injEq] at hstep
      obtain ⟨_, rfl⟩ := hstep
      exact ⟨_, rfl, h.same rfl rfl rfl rfl⟩
    | _ => cases hpops

theorem kept_inductive : (machine T).Inductive Queued Kept where
  start := by
    refine ⟨?_, ?_⟩
    · intro priority
      cases priority with
      | _ => rfl
    · intro sent hsent
      cases hsent
  step := by
    intro s a s' h ha hstep
    obtain ⟨s'', heq, hkept⟩ := h.step ha hstep
    cases heq
    exact hkept

/-- Whatever the threads do and whatever the coins say, the items of a priority are handed
    out in the order in which they were sent, each at most once; no step panics; and a
    receiver that looks into queues that are not empty gets an item. -/
theorem delivers_once {s : PriorityQueueState T} (h : (machine T).Reaches Queued s) :
    s.Delivers ∧
      ∀ a r, Queued s a → (machine T).step s a = some r →
        ∃ s', r = .ok s' ∧
          (a.pops.isSome → s.queues.isEmpty = false → ∃ sent, s'.handed = s.handed ++ [sent]) := by
  have hkept := kept_inductive.holds h
  refine ⟨hkept.delivers, ?_⟩
  intro a r ha hstep
  obtain ⟨s', rfl, _⟩ := hkept.step ha hstep
  refine ⟨s', rfl, ?_⟩
  intro hpops hfull
  obtain ⟨receiver, hreceiver⟩ := Option.isSome_iff_exists.1 hpops
  obtain ⟨_, drawn, htakes, hr⟩ | ⟨hempty, _⟩ := step_pops hreceiver hstep
  · obtain ⟨priority, item, hdrawn, _⟩ := htakes
    cases hr
    refine ⟨(priority, item), ?_⟩
    show s.handed ++ drawn.1.toList = _
    rw [hdrawn, Option.toList_some]
  · rw [hempty] at hfull
    cases hfull

/-- One receiver is woken by a send that overtakes another one, and a second one takes the
    rest. -/
theorem delivers_once_twoReceivers :
    ∃ s : PriorityQueueState Nat, (machine Nat).Reaches Queued s ∧ s.Delivers ∧
      s.accepted = [(.high, 8), (.low, 7), (.low, 9)] ∧
      s.handed = [(.low, 7), (.high, 8), (.low, 9)] := by
  let actions : List (Action Nat) :=
    [.clone 0, .pop 1 (fun _ => false), .wait 1, .send .low 7, .spinSend .high 8,
      .push 1 (some 1), .push 0 none, .send .low 9, .push 0 none, .wake 1 (fun _ => false),
      .tryPop 0 (fun priority => priority = .high), .dropSender, .pop 0 (fun _ => false)]
  have hrun : ∃ s, (machine Nat).run new actions = some (.ok s) ∧
      s.accepted = [(.high, 8), (.low, 7), (.low, 9)] ∧
      s.handed = [(.low, 7), (.high, 8), (.low, 9)] := ⟨_, rfl, rfl, rfl⟩
  obtain ⟨s, hrun, haccepted, hhanded⟩ := hrun
  have hmeets : ∀ s, ∀ a ∈ actions, Queued s a := by
    simp [actions, Queued]
  have h := Machine.Reaches.start.run (.of_forall hmeets _) hrun
  exact ⟨s, h, (delivers_once h).1, haccepted, hhanded⟩

end PriorityQueueState

end Gpui
