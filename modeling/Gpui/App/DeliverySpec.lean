import Gpui.App.Delivery

/-! # Subscriptions: whether a cancelled one is delivered

    A pass looks at the flag of a subscriber before it calls it, `remove` does not.  So a
    dropped subscriber is delivered if `remove` finds it in the map, where a pass put it
    back, or if it is dropped while an iterator still holds it.  In all other runs it is
    never delivered. -/

namespace Gpui

open List

namespace SubscriberSet

/-! ### Section 1: The property and the condition -/

/-- Nothing is invoked or handed out after its subscription was dropped. -/
def Respected (log : List Event) : Prop :=
  log.Pairwise (fun earlier later => ∀ id, earlier = .dropped id →
    later ≠ .invoked id ∧ later ≠ .handedOut id)

namespace Delivery

variable {K C : Type} [DecidableEq K]

/-- No cancelled subscription was delivered. -/
def Good (s : Delivery K C) : Prop := Respected s.log

/-- An iterator of `remove` may still hand a subscriber out. -/
def Held (s : Delivery K C) (id : Nat) : Prop :=
  ∃ removal ∈ s.removals, id ∈ removal.map Prod.fst

/-- `remove` is called while no subscriber of the emitter is dropped, and no subscription is
    dropped that an iterator of `remove` holds. -/
def Allowed (s : Delivery K C) : Action K C → Prop
  | .remove emitter => ∀ id, s.set.Registered emitter id → s.set.dropped id = false
  | .op (.drop id)  => ¬ s.Held id
  | _ => True

end Delivery

/-! ### Section 2: The log -/

variable {log : List Event} {id : Nat}

theorem Respected.dropped (h : Respected log) (id : Nat) :
    Respected (log ++ [.dropped id]) := by
  refine pairwise_append.2 ⟨h, pairwise_singleton _ _, ?_⟩
  intro earlier _ later hlater other _
  rw [mem_singleton.1 hlater]
  exact ⟨Event.noConfusion, Event.noConfusion⟩

/-- A delivery is respected if the subscription was not dropped before. -/
theorem Respected.delivered {event : Event} (h : Respected log)
    (hevent : event = .invoked id ∨ event = .handedOut id) (hnot : .dropped id ∉ log) :
    Respected (log ++ [event]) := by
  refine pairwise_append.2 ⟨h, pairwise_singleton _ _, ?_⟩
  intro earlier hearlier later hlater other heq
  rw [mem_singleton.1 hlater]
  have hne : id ≠ other := by
    intro hother
    rw [heq, ← hother] at hearlier
    exact hnot hearlier
  match hevent with
  | .inl hevent =>
    rw [hevent]
    exact ⟨fun h => hne (Event.invoked.inj h), Event.noConfusion⟩
  | .inr hevent =>
    rw [hevent]
    exact ⟨Event.noConfusion, fun h => hne (Event.handedOut.inj h)⟩

theorem not_respected_handedOut (h : .dropped id ∈ log) :
    ¬ Respected (log ++ [.handedOut id]) := by
  intro hgood
  have hpair := (pairwise_append.1 hgood).2.2
  exact (hpair _ h _ (mem_singleton.2 rfl) id rfl).2 rfl

/-! ### Section 3: The invariant -/

theorem Older.handle {K C : Type} {before after : SubscriberSet K C} (hinv : before.Inv)
    (h : Older before after) {emitter : K}
    (hhandle : before.handles id = some emitter) : after.handles id = some emitter := by
  rw [h.handles id (hinv.issued id emitter hhandle), hhandle]

/-- The subscribers of a pass. -/
def Frame.ids {K C : Type} (frame : Frame K C) : List Nat :=
  frame.kept.map Prod.fst ++
    (match frame.phase with
      | .between => []
      | .calling id _ => [id]
      | .rejected => []) ++ frame.rest.map Prod.fst

namespace Delivery

variable {K C : Type} [DecidableEq K]

structure Inv (s : Delivery K C) : Prop where
  set : s.set.Inv
  passes : ∀ frame ∈ s.passes, ∀ id ∈ frame.ids, s.set.handles id = some frame.emitter
  held : ∀ id, s.Held id → ∃ emitter, s.set.handles id = some emitter
  issued : ∀ id, s.set.dropped id = true → ∃ emitter, s.set.handles id = some emitter
  log : ∀ id, .dropped id ∈ s.log ↔ s.set.dropped id = true

/-- The invariant of the runs that meet the condition. -/
structure Respects (s : Delivery K C) : Prop extends Inv s where
  undropped : ∀ id, s.Held id → s.set.dropped id = false
  good : s.Good

/-- A call drops the subscription it is about and no other. -/
theorem dropped_apply {set : SubscriberSet K C} (hinv : set.Inv)
    (hissued : ∀ id, set.dropped id = true → ∃ emitter, set.handles id = some emitter)
    {op : Op K C} (hop : possible set op) (id : Nat) :
    (set.apply op).dropped id = true ↔ .dropped id ∈ events op ∨ set.dropped id = true := by
  cases op with
  | insert emitterKey callback =>
    show Function.update set.dropped set.nextSubscriberId false id = true ↔ _
    by_cases heq : id = set.nextSubscriberId
    · -- the new id was never dropped
      rw [heq, Function.update_self]
      constructor
      · intro h
        cases h
      · intro h
        cases h with
        | inl hmem => cases hmem
        | inr hdropped =>
          obtain ⟨emitter, hhandle⟩ := hissued _ hdropped
          exact absurd (hinv.issued _ emitter hhandle) (Nat.lt_irrefl _)
    · rw [Function.update_of_ne heq]
      simp [events]
  | activate other =>
    have hsame : (set.apply (.activate other)).dropped = set.dropped := by
      show (set.activate other).dropped = set.dropped
      unfold activate
      split <;> rfl
    rw [hsame]
    simp [events]
  | drop other =>
    obtain ⟨emitter, hhandle⟩ := Option.isSome_iff_exists.1 (Bool.and_eq_true_iff.1 hop).1
    show (set.drop other).dropped id = true ↔ _
    rw [(drop_spec hhandle).2.2.1]
    by_cases heq : id = other
    · simp [heq, events]
    · rw [Function.update_of_ne heq]
      simp [heq, events]

/-! ### Section 4: Steps -/

variable {s s' : Delivery K C} {frame : Frame K C} {outer : List (Frame K C)}
variable {rest : List (Nat × C)} {subscriberId id removal : Nat} {emitter : K} {callback : C}

omit [DecidableEq K] in
/-- What is known of the subscribers stays known while the set gets older. -/
theorem Inv.older (hinv : s.Inv) (holder : Older s.set s'.set)
    (hpasses : ∀ frame ∈ s'.passes, ∀ id ∈ frame.ids, s.set.handles id = some frame.emitter)
    (hheld : ∀ id, s'.Held id → ∃ emitter, s.set.handles id = some emitter)
    (hissued : ∀ id, s'.set.dropped id = true → ∃ emitter, s.set.handles id = some emitter)
    (hlog : ∀ id, .dropped id ∈ s'.log ↔ s'.set.dropped id = true) : s'.Inv where
  set := holder.inv
  passes := fun frame hframe id hid => holder.handle hinv.set (hpasses frame hframe id hid)
  held := by
    intro id hid
    obtain ⟨emitter, hhandle⟩ := hheld id hid
    exact ⟨emitter, holder.handle hinv.set hhandle⟩
  issued := by
    intro id hdropped
    obtain ⟨emitter, hhandle⟩ := hissued id hdropped
    exact ⟨emitter, holder.handle hinv.set hhandle⟩
  log := hlog

theorem Inv.op (hinv : s.Inv) {op : Op K C} (hop : possible s.set op) :
    Inv { s with set := s.set.apply op, log := s.log ++ events op } := by
  refine hinv.older (grows_apply hinv.set op).toOlder hinv.passes hinv.held ?_ ?_
  · intro id hdropped
    cases (dropped_apply hinv.set hinv.issued hop id).1 hdropped with
    | inr hdropped => exact hinv.issued id hdropped
    | inl hmem =>
      -- only a drop writes this, and it needs a handle
      cases op with
      | insert emitterKey callback => cases hmem
      | activate other => cases hmem
      | drop other =>
        rw [Event.dropped.inj (mem_singleton.1 hmem)]
        exact Option.isSome_iff_exists.1 (Bool.and_eq_true_iff.1 hop).1
  · intro id
    rw [dropped_apply hinv.set hinv.issued hop id, mem_append, hinv.log id, or_comm]

theorem Inv.retain (hinv : s.Inv) (emitter : K) : (s.retain emitter).Inv := by
  have hstart := @mem_startOf _ _ s.set emitter
  unfold startOf at hstart
  unfold Delivery.retain
  split
  · exact hinv
  · exact hinv
  · rename_i subscribers hentry
    simp only [hentry] at hstart
    have hset := inv_setEntry_placeholder hinv.set emitter
    refine ⟨hset, ?_, hinv.held, hinv.issued, hinv.log⟩
    intro frame hframe id hid
    cases mem_cons.1 hframe with
    | inr hframe => exact hinv.passes frame hframe id hid
    | inl heq =>
      rw [heq] at hid ⊢
      exact hinv.set.handle emitter id (hstart.1 hid)

section

variable (hinv : s.Inv) (hs : s.passes = frame :: outer)
include hinv hs

omit [DecidableEq K] in
/-- A pass goes on with subscribers that it had before. -/
theorem Inv.replace {kept : List (Nat × C)} {phase : Phase C}
    (hids : ∀ id ∈ (Frame.mk frame.emitter kept phase rest).ids, id ∈ frame.ids)
    (hlog : ∀ id, .dropped id ∈ log ↔ .dropped id ∈ s.log) :
    Inv { s with passes := ⟨frame.emitter, kept, phase, rest⟩ :: outer, log := log } where
  set := hinv.set
  passes := by
    intro other hother id hid
    cases mem_cons.1 hother with
    | inl heq =>
      rw [heq] at hid ⊢
      exact hinv.passes frame (by rw [hs]; exact mem_cons_self ..) id (hids id hid)
    | inr hother =>
      exact hinv.passes other (by rw [hs]; exact mem_cons_of_mem _ hother) id hid
  held := hinv.held
  issued := hinv.issued
  log := fun id => (hlog id).trans (hinv.log id)

theorem Inv.next : (s.next frame outer).Inv := by
  unfold Delivery.next
  split
  · -- the pass ends: its subscribers are put back
    have hset : (s.set.mergeBack frame.emitter frame.kept).Inv := by
      refine inv_mergeBack hinv.set ?_
      intro id hid
      refine hinv.passes frame (by rw [hs]; exact mem_cons_self ..) id ?_
      exact mem_append_left _ (mem_append_left _ hid)
    refine ⟨hset, ?_, hinv.held, hinv.issued, hinv.log⟩
    intro other hother id hid
    exact hinv.passes other (by rw [hs]; exact mem_cons_of_mem _ hother) id hid
  · rename_i subscriberId callback rest hrest
    have hids : ∀ id, id ∈ frame.kept.map Prod.fst ∨ id = subscriberId ∨ id ∈ rest.map Prod.fst →
        id ∈ frame.ids := by
      intro id hid
      unfold Frame.ids
      rw [hrest]
      simp only [mem_append, map_cons, mem_cons]
      match hid with
      | .inl hid => exact .inl (.inl hid)
      | .inr hid => exact .inr hid
    split
    · refine hinv.replace hs ?_ (fun _ => Iff.rfl)
      intro id hid
      refine hids id ?_
      simpa [Frame.ids, or_assoc] using hid
    · split
      · refine hinv.replace hs ?_ (fun _ => Iff.rfl)
        intro id hid
        refine hids id ?_
        simp only [Frame.ids, append_nil, mem_append] at hid
        exact hid.imp_right .inr
      · refine hinv.replace hs ?_ ?_
        · intro id hid
          refine hids id ?_
          simpa [Frame.ids, or_assoc] using hid
        · intro id
          simp

omit [DecidableEq K] in
theorem Inv.returns {called : C} (hphase : frame.phase = .calling subscriberId called)
    (callback : C) (keep : Bool) : (s.returns frame outer subscriberId callback keep).Inv := by
  unfold Delivery.returns
  split
  · refine hinv.replace hs ?_ (fun _ => Iff.rfl)
    intro id hid
    simpa [Frame.ids, hphase, or_assoc] using hid
  · refine hinv.replace hs ?_ (fun _ => Iff.rfl)
    intro id hid
    simp only [Frame.ids, append_nil, mem_append] at hid
    unfold Frame.ids
    rw [hphase]
    simp only [mem_append]
    exact hid.imp_left .inl

end

theorem held_remove :
    (s.remove emitter).Held id ↔ s.Held id ∨ s.set.Registered emitter id := by
  unfold Held Delivery.remove
  simp only [mem_append, mem_singleton, or_and_right, exists_or, exists_eq_left]
  rw [mem_startOf]

theorem Inv.remove (hinv : s.Inv) (emitter : K) :
    (s.remove emitter).Inv := by
  refine hinv.older (older_remove hinv.set emitter) hinv.passes ?_ hinv.issued hinv.log
  intro id hheld
  cases held_remove.1 hheld with
  | inl hheld => exact hinv.held id hheld
  | inr hregistered => exact ⟨emitter, hinv.set.handle emitter id hregistered⟩

section

omit [DecidableEq K]

theorem held_of_advance (hs : s.removals[removal]? = some ((subscriberId, callback) :: rest))
    (h : (s.advance removal subscriberId rest).Held id) : s.Held id := by
  obtain ⟨entries, hmem, hid⟩ := h
  obtain hmem | rfl := mem_or_eq_of_mem_set hmem
  · exact ⟨entries, hmem, hid⟩
  · refine ⟨_, mem_of_getElem? hs, ?_⟩
    rw [map_cons]
    exact mem_cons_of_mem _ hid

theorem Inv.advance (hinv : s.Inv)
    (hs : s.removals[removal]? = some ((subscriberId, callback) :: rest)) :
    (s.advance removal subscriberId rest).Inv where
  set := hinv.set
  passes := hinv.passes
  held := fun id hheld => hinv.held id (held_of_advance hs hheld)
  issued := hinv.issued
  log := by
    intro id
    refine Iff.trans ?_ (hinv.log id)
    show _ ∈ (if s.set.active subscriberId then s.log ++ [.handedOut subscriberId] else s.log) ↔ _
    split <;> simp

theorem Inv.not_mem_log (hinv : s.Inv) (h : s.set.dropped id = false) : .dropped id ∉ s.log := by
  rw [hinv.log id, h]
  exact Bool.false_ne_true

end

/-! ### Section 5: Runs that meet the condition -/

section

variable (h : s.Respects)
include h

theorem Respects.op {op : Op K C} (hop : possible s.set op) (hallowed : Allowed s (.op op)) :
    Respects { s with set := s.set.apply op, log := s.log ++ events op } where
  toInv := h.toInv.op hop
  undropped := by
    intro id hheld
    have hold : s.set.dropped id = false := h.undropped id hheld
    refine Bool.eq_false_iff.2 ?_
    intro hdropped
    cases (dropped_apply h.set h.issued hop id).1 hdropped with
    | inr hdropped =>
      rw [hold] at hdropped
      cases hdropped
    | inl hmem =>
      -- a subscription that is held is not dropped
      cases op with
      | insert emitterKey callback => cases hmem
      | activate other => cases hmem
      | drop other =>
        rw [Event.dropped.inj (mem_singleton.1 hmem)] at hheld
        exact hallowed hheld
  good := by
    cases op with
    | insert _ _ | activate _ =>
      show Respected (s.log ++ [])
      rw [append_nil]
      exact h.good
    | drop other => exact Respected.dropped h.good other

theorem Respects.retain (emitter : K) : (s.retain emitter).Respects := by
  refine ⟨h.toInv.retain emitter, ?_, ?_⟩
  · unfold Delivery.retain
    split
    · exact h.undropped
    · exact h.undropped
    · exact h.undropped
  · unfold Delivery.retain
    split
    · exact h.good
    · exact h.good
    · exact h.good

theorem Respects.next (hs : s.passes = frame :: outer) : (s.next frame outer).Respects := by
  refine ⟨h.toInv.next hs, ?_, ?_⟩
  · unfold Delivery.next
    split
    · exact h.undropped
    · split
      · exact h.undropped
      · split
        · exact h.undropped
        · exact h.undropped
  · unfold Delivery.next
    split
    · exact h.good
    · split
      · exact h.good
      · split
        · exact h.good
        · -- the pass looked at the flag
          rename_i hdropped
          have hnot := h.toInv.not_mem_log (Bool.eq_false_iff.2 hdropped)
          exact Respected.delivered h.good (.inl rfl) hnot

omit [DecidableEq K] in
theorem Respects.returns (hs : s.passes = frame :: outer) {called : C}
    (hphase : frame.phase = .calling subscriberId called) (callback : C) (keep : Bool) :
    (s.returns frame outer subscriberId callback keep).Respects := by
  refine ⟨h.toInv.returns hs hphase callback keep, ?_, ?_⟩
  · unfold Delivery.returns
    split
    · exact h.undropped
    · exact h.undropped
  · unfold Delivery.returns
    split
    · exact h.good
    · exact h.good

theorem Respects.remove (hallowed : Allowed s (.remove emitter)) : (s.remove emitter).Respects where
  toInv := h.toInv.remove emitter
  undropped := by
    intro id hheld
    cases held_remove.1 hheld with
    | inl hheld => exact h.undropped id hheld
    | inr hregistered => exact hallowed id hregistered
  good := h.good

omit [DecidableEq K] in
theorem Respects.advance (hs : s.removals[removal]? = some ((subscriberId, callback) :: rest)) :
    (s.advance removal subscriberId rest).Respects where
  toInv := h.toInv.advance hs
  undropped := fun id hheld => h.undropped id (held_of_advance hs hheld)
  good := by
    have hheld : s.Held subscriberId :=
      ⟨_, mem_of_getElem? hs, mem_cons_self ..⟩
    have hnot := h.toInv.not_mem_log (h.undropped _ hheld)
    unfold Good Delivery.advance
    split
    · exact Respected.delivered h.good (.inr rfl) hnot
    · exact h.good

/-- **Step lemma.** -/
theorem Respects.step {a : Action K C} (hallowed : Allowed s a) (hstep : s.step a = some (.ok s')) :
    s'.Respects := by
  unfold Delivery.step at hstep
  cases a with
  | op op =>
    obtain ⟨hpossible, heq⟩ := Option.ite_none_right_eq_some.1 hstep
    cases heq
    exact h.op (Bool.and_eq_true_iff.1 hpossible).2 hallowed
  | retain emitter =>
    obtain ⟨_, heq⟩ := Option.ite_none_right_eq_some.1 hstep
    cases heq
    exact h.retain emitter
  | next =>
    simp only at hstep
    split at hstep
    · cases hstep
    · rename_i frame outer hs
      split at hstep
      · cases hstep
      · cases hstep
        exact h.next hs
      · cases hstep
        exact h.next hs
  | returns callback keep =>
    simp only at hstep
    split at hstep
    · cases hstep
    · rename_i frame outer hs
      split at hstep
      · rename_i hphase
        cases hstep
        exact h.returns hs hphase callback keep
      · cases hstep
      · cases hstep
  | remove emitter =>
    obtain ⟨_, heq⟩ := Option.ite_none_right_eq_some.1 hstep
    cases heq
    exact h.remove hallowed
  | advance removal =>
    obtain ⟨_, heq⟩ := Option.ite_none_right_eq_some.1 hstep
    split at heq
    · rename_i hs
      cases heq
      exact h.advance hs
    · cases heq
    · cases heq

end

omit [DecidableEq K] in
theorem respects_start : (start : Delivery K C).Respects where
  set := inv_new
  passes := fun _ hframe => absurd hframe (not_mem_nil)
  held := by
    intro id hheld
    obtain ⟨removal, hmem, _⟩ := hheld
    cases hmem
  issued := fun _ h => absurd h Bool.false_ne_true
  log := by
    intro id
    simp [start, new]
  undropped := fun _ _ => rfl
  good := List.Pairwise.nil

theorem inductive_respects : (machine K C).Inductive Allowed Respects where
  start := respects_start
  step := fun _ _ _ h hallowed hstep => h.step hallowed hstep

/-! ### Section 6: Runs that do not -/

/-- An iterator that goes on hands out every active subscriber it holds, also a dropped
    one. -/
theorem delivers {entries : List (Nat × C)}
    (hs : s.removals[removal]? = some entries) (hid : id ∈ entries.map Prod.fst)
    (houtside : s.outside = true) (hactive : s.set.active id = true)
    (hlog : .dropped id ∈ s.log) :
    ∃ n s', (machine K C).run s (List.replicate n (.advance removal)) = some (.ok s') ∧
      ¬ s'.Good := by
  -- induction on what the iterator has left
  induction entries generalizing s with
  | nil => cases hid
  | cons entry rest ih =>
    obtain ⟨subscriberId, callback⟩ := entry
    have hstep : (machine K C).step s (.advance removal)
        = some (.ok (s.advance removal subscriberId rest)) := by
      show Delivery.step s (.advance removal) = _
      simp only [Delivery.step, houtside, if_true, hs]
    by_cases heq : subscriberId = id
    · -- it is handed out now
      refine ⟨1, s.advance removal subscriberId rest, ?_, ?_⟩
      · rw [replicate_one, Machine.run_cons_ok _ hstep, Machine.run_nil]
      · unfold Good Delivery.advance
        rw [heq, hactive]
        exact not_respected_handedOut hlog
    · have hrest : id ∈ rest.map Prod.fst := by
        cases mem_cons.1 hid with
        | inl h => exact absurd h.symm heq
        | inr h => exact h
      have hlog' : .dropped id ∈ (s.advance removal subscriberId rest).log := by
        show _ ∈ (if s.set.active subscriberId then s.log ++ [.handedOut subscriberId] else s.log)
        split
        · exact mem_append_left _ hlog
        · exact hlog
      have hremovals : (s.advance removal subscriberId rest).removals[removal]? = some rest := by
        show (s.removals.set removal rest)[removal]? = some rest
        rw [List.getElem?_set_self (List.getElem?_eq_some_iff.1 hs).1]
      obtain ⟨n, s', hrun, hbad⟩ := ih hremovals hrest houtside hactive hlog'
      refine ⟨n + 1, s', ?_, hbad⟩
      rw [replicate_succ, Machine.run_cons_ok _ hstep, hrun]

/-- A dropped subscriber that an iterator holds can still be activated and handed out. -/
theorem Held.spoiled (hheld : s.Held id)
    (houtside : s.outside = true) (hhandle : s.set.handles id = some emitter)
    (hlog : .dropped id ∈ s.log) :
    ∃ actions s', (machine K C).Meets Allowed s actions ∧
      (machine K C).run s actions = some (.ok s') ∧ ¬ s'.Good := by
  obtain ⟨entries, hmem, hid⟩ := hheld
  obtain ⟨removal, hs⟩ := mem_iff_getElem?.1 hmem
  by_cases hactive : s.set.active id = true
  · obtain ⟨n, s', hrun, hbad⟩ := delivers hs hid houtside hactive hlog
    refine ⟨_, s', .of_forall ?_ s, hrun, hbad⟩
    intro s a ha
    rw [eq_of_mem_replicate ha]
    trivial
  · -- it is activated first
    have hpossible : (s.outside && possible s.set (.activate id)) = true := by
      rw [houtside, Bool.true_and]
      show ((s.set.handles id).isSome && !s.set.active id) = true
      rw [hhandle, Bool.eq_false_iff.2 hactive]
      rfl
    have hstep : (machine K C).step s (.op (.activate id))
        = some (.ok { s with set := s.set.activate id, log := s.log ++ [] }) := by
      show Delivery.step s (.op (.activate id)) = _
      simp only [Delivery.step, hpossible, if_true, events, apply]
    have hactive' : (s.set.activate id).active id = true := by
      rw [activate, hhandle]
      exact Function.update_self ..
    obtain ⟨n, s', hrun, hbad⟩ := @delivers _ _ _
      { s with set := s.set.activate id, log := s.log ++ [] } id removal entries hs hid houtside
      hactive' (mem_append_left _ hlog)
    refine ⟨.op (.activate id) :: List.replicate n (.advance removal), s', ⟨trivial, ?_⟩, ?_, hbad⟩
    · intro s' _
      refine .of_forall ?_ s'
      intro s a ha
      rw [eq_of_mem_replicate ha]
      trivial
    · rw [Machine.run_cons_ok _ hstep, hrun]

theorem Respects.spoiled {a : Action K C} (h : s.Respects)
    (hstep : s.step a = some (.ok s')) (hnot : ¬ Allowed s a) :
    ∃ actions s'', (machine K C).Meets Allowed s' actions ∧
      (machine K C).run s' actions = some (.ok s'') ∧ ¬ s''.Good := by
  cases a with
  | remove emitter =>
    obtain ⟨houtside, heq⟩ := Option.ite_none_right_eq_some.1 hstep
    cases heq
    unfold Allowed at hnot
    push Not at hnot
    obtain ⟨id, hregistered, hdropped⟩ := hnot
    have hdropped : s.set.dropped id = true := (Bool.not_eq_false _).mp hdropped
    have hheld : (s.remove emitter).Held id := held_remove.2 (.inr hregistered)
    exact hheld.spoiled houtside (h.set.handle emitter id hregistered) ((h.log id).2 hdropped)
  | op op =>
    obtain ⟨hpossible, heq⟩ := Option.ite_none_right_eq_some.1 hstep
    obtain ⟨houtside, hop⟩ := Bool.and_eq_true_iff.1 hpossible
    cases heq
    cases op with
    | insert emitterKey callback => exact absurd trivial hnot
    | activate id => exact absurd trivial hnot
    | drop id =>
      have hheld : s.Held id := not_not.1 hnot
      obtain ⟨emitter, hhandle⟩ := h.held id hheld
      have hhandle' := (grows_drop h.set id).toOlder.handle h.set hhandle
      exact Held.spoiled hheld houtside hhandle'
        (mem_append_right _ (mem_singleton.2 rfl))
  | retain emitter => exact absurd trivial hnot
  | next => exact absurd trivial hnot
  | returns callback keep => exact absurd trivial hnot
  | advance removal => exact absurd trivial hnot

/-- No cancelled subscription is delivered if `remove` finds no dropped subscriber and none
    is dropped while an iterator holds it; and every other step leads to a delivery of a
    cancelled one. -/
theorem cancelled_not_delivered : (machine K C).Exact Allowed Good :=
  inductive_respects.exact (fun _ h => h.good) (fun _ _ _ h hstep hnot => h.spoiled hstep hnot)

/-- The second callback of a pass drops the first one, which the pass puts back; then the
    callbacks of the emitter are removed. -/
theorem cancelled_handed_out : ¬ ∀ s, (machine Unit Nat).Reaches (fun _ _ => True) s → s.Good := by
  intro h
  have hreaches := Machine.Reaches.run (.start)
    (Machine.Meets.of_forall (fun _ _ _ => trivial) _) (show (machine Unit Nat).run start
      [.op (.insert () 0), .op (.activate 0), .op (.insert () 1), .op (.activate 1),
        .retain (), .next, .returns 0 true, .next, .op (.drop 0), .returns 1 true, .next,
        .remove (), .advance 0] = some (.ok _) from rfl)
  exact @not_respected_handedOut [.invoked 0, .invoked 1, .dropped 0] 0 (by decide)
    (h _ hreaches)

end Delivery

end SubscriberSet

end Gpui
