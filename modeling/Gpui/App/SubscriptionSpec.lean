import Gpui.App.Subscription

/-! # Subscriptions: who is called

    Everything that happens to a set makes it older: ids are given out once,
    a dropped subscriber stays dropped, and one that is no longer registered is
    never registered again.  A pass is made of the turns of the subscribers it
    started with, and of what the callbacks do in between. -/

namespace Gpui

open List

namespace SubscriberSet

variable {K C W : Type} [DecidableEq K]

/-- The set holds the subscriber under the emitter. -/
def Registered (set : SubscriberSet K C) (emitter : K) (id : Nat) : Prop :=
  ∃ subscribers, set.subscribers emitter = some (some subscribers) ∧ id ∈ subscribers

/-- A subscriber is registered under the emitter of its handle, and handles have ids
    that were given out. -/
structure Inv (set : SubscriberSet K C) : Prop where
  handle : ∀ emitter id, set.Registered emitter id → set.handles id = some emitter
  issued : ∀ id emitter, set.handles id = some emitter → id < set.nextSubscriberId

/-- What no step takes back. -/
structure Older (before after : SubscriberSet K C) : Prop where
  inv : after.Inv
  next_le : before.nextSubscriberId ≤ after.nextSubscriberId
  handles : ∀ id < before.nextSubscriberId, after.handles id = before.handles id
  dropped : ∀ id < before.nextSubscriberId, before.dropped id = true → after.dropped id = true
  unregistered : ∀ id < before.nextSubscriberId, ∀ emitter,
    after.Registered emitter id → before.Registered emitter id

/-- What the callbacks do to the set: only a drop takes a subscriber away. -/
structure Grows (before after : SubscriberSet K C) : Prop extends Older before after where
  registered : ∀ emitter id, id < before.nextSubscriberId → before.Registered emitter id →
    after.dropped id = true ∨ after.Registered emitter id
  inserted : ∀ id, before.nextSubscriberId ≤ id → id < after.nextSubscriberId →
    ∃ emitter, after.handles id = some emitter ∧
      (after.dropped id = true ∨ after.Registered emitter id)

section

omit [DecidableEq K]

variable {set : SubscriberSet K C} {a b c : SubscriberSet K C}

theorem Older.refl (h : set.Inv) : Older set set where
  inv := h
  next_le := Nat.le_refl _
  handles := fun _ _ => rfl
  dropped := fun _ _ h => h
  unregistered := fun _ _ _ h => h

theorem Older.trans (hab : Older a b) (hbc : Older b c) :
    Older a c where
  inv := hbc.inv
  next_le := Nat.le_trans hab.next_le hbc.next_le
  handles := by
    intro id hid
    rw [hbc.handles id (Nat.lt_of_lt_of_le hid hab.next_le), hab.handles id hid]
  dropped := fun id hid h => hbc.dropped id (Nat.lt_of_lt_of_le hid hab.next_le) (hab.dropped id hid h)
  unregistered := fun id hid emitter h =>
    hab.unregistered id hid emitter (hbc.unregistered id (Nat.lt_of_lt_of_le hid hab.next_le) emitter h)

theorem Grows.refl (h : set.Inv) : Grows set set where
  toOlder := Older.refl h
  registered := fun _ _ _ h => Or.inr h
  inserted := fun _ hge hlt => absurd hlt (Nat.not_lt.mpr hge)

theorem Grows.trans (hab : Grows a b) (hbc : Grows b c) :
    Grows a c where
  toOlder := hab.toOlder.trans hbc.toOlder
  registered := by
    intro emitter id hid h
    have hid' := Nat.lt_of_lt_of_le hid hab.next_le
    rcases hab.registered emitter id hid h with hdrop | hreg
    · exact Or.inl (hbc.dropped id hid' hdrop)
    · exact hbc.registered emitter id hid' hreg
  inserted := by
    intro id hge hlt
    by_cases hid : id < b.nextSubscriberId
    · -- inserted in the first part
      obtain ⟨emitter, hhandle, hstate⟩ := hab.inserted id hge hid
      refine ⟨emitter, by rw [hbc.handles id hid, hhandle], ?_⟩
      rcases hstate with hdrop | hreg
      · exact Or.inl (hbc.dropped id hid hdrop)
      · exact hbc.registered emitter id hid hreg
    · exact hbc.inserted id (Nat.le_of_not_lt hid) hlt

end

/-! ## The operations -/

variable {set : SubscriberSet K C} {emitter other : K} {id : Nat} {kept : List (Nat × C)}

theorem registered_setEntry {entry : Option (Option (Subscribers C))} :
    (set.setEntry emitter entry).Registered other id ↔
      if other = emitter then ∃ subscribers, entry = some (some subscribers) ∧ id ∈ subscribers
      else set.Registered other id := by
  rw [Registered, setEntry]
  by_cases heq : other = emitter
  · rw [heq, if_pos rfl]
    simp only [Function.update_self]
  · rw [if_neg heq, Registered]
    simp only [Function.update_of_ne heq]

theorem grows_insert (h : set.Inv) (emitterKey : K) (callback : C) :
    Grows set (set.insert emitterKey callback) := by
  have hreg : ∀ emitter id, (set.insert emitterKey callback).Registered emitter id ↔
      (emitter = emitterKey ∧ id = set.nextSubscriberId) ∨ set.Registered emitter id := by
    intro emitter id
    by_cases heq : emitter = emitterKey
    · rw [heq]
      simp only [Registered, insert, Function.update_self, Option.some.injEq, exists_eq_left',
        Std.TreeMap.mem_insert, Std.compare_eq_iff_eq, true_and, @eq_comm _ _ id]
      cases set.subscribers emitterKey with
      | none => simp
      | some entry => cases entry <;> simp
    · simp only [Registered, insert, Function.update_of_ne heq, heq, false_and, false_or]
  have hhandles : ∀ id < set.nextSubscriberId,
      (set.insert emitterKey callback).handles id = set.handles id := by
    intro id hid
    exact Function.update_of_ne (Nat.ne_of_lt hid) _ _
  have hself : (set.insert emitterKey callback).handles set.nextSubscriberId = some emitterKey :=
    Function.update_self _ _ _
  refine { inv := ⟨?_, ?_⟩, next_le := Nat.le_succ _, handles := hhandles, dropped := ?_,
           unregistered := ?_, registered := ?_, inserted := ?_ }
  · intro emitter id hr
    rcases (hreg emitter id).mp hr with ⟨rfl, rfl⟩ | hr
    · exact hself
    · have hhandle := h.handle emitter id hr
      rw [hhandles id (h.issued id emitter hhandle), hhandle]
  · intro id emitter hhandle
    show id < set.nextSubscriberId + 1
    by_cases hid : id = set.nextSubscriberId
    · omega
    · have hold : set.handles id = some emitter := by
        rw [← hhandle]
        exact (Function.update_of_ne hid _ _).symm
      have := h.issued id emitter hold
      omega
  · intro id hid hdrop
    show Function.update set.dropped set.nextSubscriberId false id = true
    rw [Function.update_of_ne (Nat.ne_of_lt hid)]
    exact hdrop
  · intro id hid emitter hr
    rcases (hreg emitter id).mp hr with ⟨_, heq⟩ | hr
    · omega
    · exact hr
  · intro emitter id _ hr
    exact Or.inr ((hreg emitter id).mpr (Or.inr hr))
  · intro id hge hlt
    have hid : id = set.nextSubscriberId := by
      have : id < set.nextSubscriberId + 1 := hlt
      omega
    rw [hid]
    exact ⟨emitterKey, hself, Or.inr ((hreg _ _).mpr (Or.inl ⟨rfl, rfl⟩))⟩

omit [DecidableEq K] in
theorem grows_activate (h : set.Inv) (id : Nat) : Grows set (set.activate id) := by
  rw [activate]
  cases set.handles id with
  | none => exact Grows.refl h
  | some emitter =>
    exact { inv := ⟨h.handle, h.issued⟩, next_le := Nat.le_refl _, handles := fun _ _ => rfl,
            dropped := fun _ _ h => h, unregistered := fun _ _ _ h => h,
            registered := fun _ _ _ h => Or.inr h,
            inserted := fun _ hge hlt => absurd hlt (Nat.not_lt.mpr hge) }

/-- A dropped subscriber is flagged, and leaves the map if the map is there. -/
theorem drop_spec {emitterKey : K} (h : set.handles id = some emitterKey) :
    (set.drop id).nextSubscriberId = set.nextSubscriberId ∧
    (set.drop id).handles = set.handles ∧
    (set.drop id).dropped = Function.update set.dropped id true ∧
    ∀ emitter other, (set.drop id).Registered emitter other ↔
      set.Registered emitter other ∧ ¬ (emitter = emitterKey ∧ other = id) := by
  have hother : ∀ emitter other, set.subscribers emitterKey = none ∨
      set.subscribers emitterKey = some none →
      (set.Registered emitter other ↔
        set.Registered emitter other ∧ ¬ (emitter = emitterKey ∧ other = id)) := by
    intro emitter other hentry
    constructor
    · intro hr
      refine ⟨hr, ?_⟩
      intro ⟨heq, _⟩
      obtain ⟨subscribers, hsub, _⟩ := hr
      rw [heq] at hsub
      rcases hentry with hentry | hentry <;> rw [hentry] at hsub <;> cases hsub
    · intro hr
      exact hr.1
  simp only [drop, h]
  cases hentry : set.subscribers emitterKey with
  | none => exact ⟨rfl, rfl, rfl, fun emitter other => hother emitter other (Or.inl hentry)⟩
  | some entry =>
    cases entry with
    | none => exact ⟨rfl, rfl, rfl, fun emitter other => hother emitter other (Or.inr hentry)⟩
    | some subscribers =>
      refine ⟨rfl, rfl, rfl, ?_⟩
      intro emitter other
      rw [registered_setEntry]
      by_cases heq : emitter = emitterKey
      · rw [heq, if_pos rfl]
        have hmem : set.Registered emitterKey other ↔ other ∈ subscribers := by
          simp [Registered, hentry]
        rw [hmem]
        by_cases hempty : (subscribers.erase id).isEmpty = true
        · rw [if_pos hempty]
          have hnot := Std.TreeMap.isEmpty_iff_forall_not_mem.mp hempty other
          rw [Std.TreeMap.mem_erase] at hnot
          simp only [ne_eq, Std.compare_eq_iff_eq] at hnot
          constructor
          · intro ⟨_, hcontra, _⟩
            cases hcontra
          · intro ⟨hother, hne⟩
            exact absurd ⟨fun heq => hne ⟨rfl, heq.symm⟩, hother⟩ hnot
        · rw [if_neg hempty]
          simp only [Option.some.injEq, exists_eq_left', Std.TreeMap.mem_erase, ne_eq,
            Std.compare_eq_iff_eq, true_and]
          rw [and_comm, @eq_comm _ id]
      · rw [if_neg heq]
        simp only [heq, false_and, not_false_eq_true, and_true]
        rfl

theorem grows_drop (h : set.Inv) (id : Nat) : Grows set (set.drop id) := by
  cases hhandle : set.handles id with
  | none =>
    rw [drop, hhandle]
    exact Grows.refl h
  | some emitterKey =>
    obtain ⟨hnext, hhandles, hdropped, hreg⟩ := drop_spec hhandle
    refine { inv := ⟨?_, ?_⟩, next_le := Nat.le_of_eq hnext.symm,
             handles := fun _ _ => by rw [hhandles],
             dropped := ?_, unregistered := fun other _ emitter hr => ((hreg _ _).mp hr).1,
             registered := ?_, inserted := ?_ }
    · intro emitter other hr
      rw [hhandles]
      exact h.handle emitter other ((hreg _ _).mp hr).1
    · intro other emitter hr
      rw [hhandles] at hr
      rw [hnext]
      exact h.issued other emitter hr
    · intro other _ hd
      rw [hdropped]
      by_cases heq : other = id
      · rw [heq, Function.update_self]
      · rw [Function.update_of_ne heq]
        exact hd
    · intro emitter other _ hr
      by_cases heq : other = id
      · left
        rw [hdropped, heq, Function.update_self]
      · exact Or.inr ((hreg _ _).mpr ⟨hr, fun ⟨_, heq'⟩ => heq heq'⟩)
    · intro other hge hlt
      omega

/-- **Step lemma.**  What a callback does makes the set grow. -/
theorem grows_apply (h : set.Inv) (op : Op K C) : Grows set (set.apply op) := by
  cases op with
  | insert emitterKey callback => exact grows_insert h emitterKey callback
  | activate id => exact grows_activate h id
  | drop id => exact grows_drop h id

theorem grows_foldl (h : set.Inv) (ops : List (Op K C)) : Grows set (ops.foldl apply set) := by
  induction ops generalizing set with
  | nil => exact Grows.refl h
  | cons op ops ih =>
    have hop := grows_apply h op
    exact hop.trans (ih hop.inv)

theorem older_remove (h : set.Inv) (emitter : K) : Older set (set.remove emitter) := by
  have hreg : ∀ other id, (set.remove emitter).Registered other id → set.Registered other id := by
    intro other id hr
    rw [remove, registered_setEntry] at hr
    split at hr
    · obtain ⟨_, hcontra, _⟩ := hr
      cases hcontra
    · exact hr
  exact { inv := ⟨fun other id hr => h.handle other id (hreg other id hr), h.issued⟩,
          next_le := Nat.le_refl _, handles := fun _ _ => rfl, dropped := fun _ _ h => h,
          unregistered := fun id _ other hr => hreg other id hr }

/-! ## The turns of a pass -/

variable {f : Visitor W K C} {pass : Pass W K C}

theorem grows_turn (h : pass.set.Inv) (id : Nat) (callback : C) :
    Grows pass.set (turn f pass id callback).1.set := by
  rw [turn]
  split
  · exact Grows.refl h
  · split
    · exact Grows.refl h
    · exact grows_foldl h _

/-- **Run lemma.**  The set grows through the turns. -/
theorem grows_turns (f : Visitor W K C) {pass : Pass W K C} (h : pass.set.Inv)
    (entries : List (Nat × C)) :
    Grows pass.set (turns f pass entries).1.set := by
  induction entries generalizing pass with
  | nil => exact Grows.refl h
  | cons entry entries ih =>
    have hturn := grows_turn (f := f) h entry.1 entry.2
    exact hturn.trans (ih hturn.inv)

/-- The subscriber is active and not dropped when the pass reaches it. -/
def Ready (pass : Pass W K C) (id : Nat) : Prop :=
  pass.set.active id = true ∧ pass.set.dropped id = false

/-- What one turn adds to the calls, and whether the subscriber stays. -/
theorem turn_spec (f : Visitor W K C) (pass : Pass W K C) (id : Nat) (callback : C) :
    (¬ Ready pass id ∧ (turn f pass id callback).1 = pass) ∨
    (Ready pass id ∧ ∃ answer, (turn f pass id callback).1.called =
        pass.called ++ [(id, answer)] ∧
      (answer = false → (turn f pass id callback).2 = none)) := by
  rw [turn]
  by_cases hactive : pass.set.active id = true
  · by_cases hdropped : pass.set.dropped id = true
    · left
      simp [Ready, hactive, hdropped]
    · right
      have hready : Ready pass id := ⟨hactive, Bool.not_eq_true _ ▸ hdropped⟩
      refine ⟨hready, (f pass.world pass.set callback).keep, ?_, ?_⟩
      · simp [hactive, hdropped]
      · intro hanswer
        simp [hactive, hdropped, hanswer]
  · left
    simp [Ready, hactive]

theorem kept_sublist (f : Visitor W K C) (pass : Pass W K C) (entries : List (Nat × C)) :
    ((turns f pass entries).2.map Prod.fst).Sublist (entries.map Prod.fst) := by
  induction entries generalizing pass with
  | nil => exact List.Sublist.refl _
  | cons entry entries ih =>
    obtain ⟨id, callback⟩ := entry
    simp only [turns, map_append, map_cons]
    cases (turn f pass id callback).2 with
    | none => exact (ih (turn f pass id callback).1).cons id
    | some kept => exact (ih (turn f pass id callback).1).cons_cons id

theorem mem_kept_cons {id other : Nat} {callback : C} {entries : List (Nat × C)}
    (h : other ∈ (turns f pass ((id, callback) :: entries)).2.map Prod.fst) :
    (other = id ∧ (turn f pass id callback).2 ≠ none) ∨
      other ∈ (turns f (turn f pass id callback).1 entries).2.map Prod.fst := by
  simp only [turns, map_append, mem_append] at h
  rcases h with h | h
  · left
    cases hkept : (turn f pass id callback).2 with
    | none =>
      rw [hkept] at h
      cases h
    | some kept =>
      rw [hkept] at h
      exact ⟨by simpa using h, by simp⟩
  · exact Or.inr h

/-- The calls of a pass: the subscribers that are ready at their turn, in order, and
    those that answer `false` do not stay. -/
theorem called_turns (f : Visitor W K C) (pass : Pass W K C) (entries : List (Nat × C)) :
    ∃ calls, (turns f pass entries).1.called = pass.called ++ calls ∧
      (calls.map Prod.fst).Sublist (entries.map Prod.fst) ∧
      (∀ id, id ∈ calls.map Prod.fst ↔ ∃ before callback after,
        entries = before ++ (id, callback) :: after ∧ Ready (turns f pass before).1 id) ∧
      ((entries.map Prod.fst).Nodup → ∀ id, (id, false) ∈ calls →
        id ∉ (turns f pass entries).2.map Prod.fst) := by
  induction entries generalizing pass with
  | nil => exact ⟨[], by simp [turns]⟩
  | cons entry entries ih =>
    obtain ⟨id, callback⟩ := entry
    obtain ⟨calls, hcalled, hsub, hmem, hreject⟩ := ih (turn f pass id callback).1
    -- the first turn, or one of the others
    have hsplit : ∀ other, (∃ before c after,
        (id, callback) :: entries = before ++ (other, c) :: after ∧
          Ready (turns f pass before).1 other) ↔
        (other = id ∧ Ready pass id) ∨ other ∈ calls.map Prod.fst := by
      intro other
      rw [hmem]
      constructor
      · intro ⟨before, c, after, heq, hready⟩
        cases before with
        | nil =>
          obtain ⟨⟨rfl, _⟩, _⟩ := heq
          exact Or.inl ⟨rfl, hready⟩
        | cons first before =>
          rw [cons_append, List.cons.injEq] at heq
          obtain ⟨rfl, heq⟩ := heq
          exact Or.inr ⟨before, c, after, heq, hready⟩
      · intro h
        rcases h with ⟨rfl, hready⟩ | ⟨before, c, after, heq, hready⟩
        · exact ⟨[], callback, entries, rfl, hready⟩
        · exact ⟨(id, callback) :: before, c, after, by rw [heq]; rfl, hready⟩
    have hbehind (hnodup : (((id, callback) :: entries).map Prod.fst).Nodup) (other : Nat)
        (hcalls : (other, false) ∈ calls) :
        other ∉ (turns f pass ((id, callback) :: entries)).2.map Prod.fst := by
      intro hkept
      rw [map_cons, nodup_cons] at hnodup
      rcases mem_kept_cons hkept with ⟨rfl, _⟩ | hkept
      · exact hnodup.1 (hsub.subset (mem_map.mpr ⟨_, hcalls, rfl⟩))
      · exact hreject hnodup.2 other hcalls hkept
    rcases turn_spec f pass id callback with ⟨hnot, hsame⟩ | ⟨hready, answer, hcall, hnone⟩
    · refine ⟨calls, ?_, hsub.cons id, ?_, ?_⟩
      · show (turns f (turn f pass id callback).1 entries).1.called = _
        rw [hcalled, hsame]
      · intro other
        rw [hsplit]
        constructor
        · exact Or.inr
        · intro h
          rcases h with ⟨_, hready⟩ | h
          · exact absurd hready hnot
          · exact h
      · intro hnodup other hcalls hkept
        exact hbehind hnodup other hcalls hkept
    · refine ⟨(id, answer) :: calls, ?_, hsub.cons_cons id, ?_, ?_⟩
      · show (turns f (turn f pass id callback).1 entries).1.called = _
        rw [hcalled, hcall, append_assoc]
        rfl
      · intro other
        rw [hsplit, map_cons, mem_cons]
        constructor
        · intro h
          rcases h with heq | h
          · exact Or.inl ⟨heq, hready⟩
          · exact Or.inr h
        · intro h
          rcases h with ⟨heq, _⟩ | h
          · exact Or.inl heq
          · exact Or.inr h
      · intro hnodup other hcalls hkept
        rcases mem_cons.mp hcalls with heq | hcalls
        · -- the one that was just rejected
          cases heq
          rw [map_cons, nodup_cons] at hnodup
          rcases mem_kept_cons hkept with ⟨_, hsome⟩ | hkept
          · exact hsome (hnone rfl)
          · exact hnodup.1 ((kept_sublist _ _ entries).subset hkept)
        · exact hbehind hnodup other hcalls hkept

/-! ## A pass and what comes after it -/

theorem registered_mergeBack :
    (set.mergeBack emitter kept).Registered other id ↔
      if other = emitter then id ∈ kept.map Prod.fst ∨ set.Registered emitter id
      else set.Registered other id := by
  rw [mergeBack, registered_setEntry]
  by_cases heq : other = emitter
  · rw [if_pos heq, if_pos heq]
    have hentry : ∀ subscribers : Subscribers C,
        (∃ m, (if subscribers.isEmpty then none else some (some subscribers)) = some (some m) ∧
          id ∈ m) ↔ id ∈ subscribers := by
      intro subscribers
      by_cases hempty : subscribers.isEmpty = true
      · have hnot := Std.TreeMap.isEmpty_iff_forall_not_mem.mp hempty id
        simp [hempty, hnot]
      · simp [hempty]
    rw [hentry, Registered]
    cases set.subscribers emitter with
    | none => simp
    | some entry => cases entry <;> simp
  · rw [if_neg heq, if_neg heq]

/-- Subscribers of the emitter may be put back. -/
theorem inv_mergeBack (h : set.Inv) {emitter : K}
    (hkept : ∀ id ∈ kept.map Prod.fst, set.handles id = some emitter) :
    (set.mergeBack emitter kept).Inv where
  handle := by
    intro other id hr
    rw [registered_mergeBack] at hr
    split at hr
    · rename_i heq
      rw [heq]
      cases hr with
      | inl hmem => exact hkept id hmem
      | inr hr => exact h.handle emitter id hr
    · exact h.handle other id hr
  issued := h.issued

/-- The pass over a map that was taken out of the set. -/
def taken (set : SubscriberSet K C) (emitter : K) (world : W) : Pass W K C :=
  ⟨world, set.setEntry emitter (some none), []⟩

theorem inv_setEntry_placeholder (h : set.Inv) (emitter : K) :
    (set.setEntry emitter (some none)).Inv where
  handle := by
    intro other id hr
    rw [registered_setEntry] at hr
    split at hr
    · obtain ⟨_, hcontra, _⟩ := hr
      cases hcontra
    · exact h.handle other id hr
  issued := h.issued

section

omit [DecidableEq K]

theorem mem_startOf {set : SubscriberSet K C} {emitter : K} {id : Nat} :
    id ∈ (set.startOf emitter).map Prod.fst ↔ set.Registered emitter id := by
  rw [startOf, Registered]
  cases set.subscribers emitter with
  | none => simp
  | some entry =>
    cases entry with
    | none => simp
    | some subscribers =>
      simp only [Std.TreeMap.map_fst_toList_eq_keys, Std.TreeMap.mem_keys, Option.some.injEq,
        exists_eq_left']

theorem pairwise_startOf (set : SubscriberSet K C) (emitter : K) :
    ((set.startOf emitter).map Prod.fst).Pairwise (fun a b => a < b) := by
  rw [startOf]
  cases set.subscribers emitter with
  | none => exact List.Pairwise.nil
  | some entry =>
    cases entry with
    | none => exact List.Pairwise.nil
    | some subscribers =>
      rw [Std.TreeMap.map_fst_toList_eq_keys]
      exact Std.TreeMap.ordered_keys.imp (fun h => Nat.compare_eq_lt.mp h)

end

/-- A pass takes the map out, gives every subscriber its turn, and puts those that stay
    back; with no subscribers nothing happens. -/
theorem retain_eq (set : SubscriberSet K C) (emitter : K) (f : Visitor W K C) (world : W) :
    (set.startOf emitter = [] ∧ (set.retain emitter f world).called = [] ∧
      (set.retain emitter f world).set = set) ∨
    ((set.retain emitter f world).called =
        (turns f (set.taken emitter world) (set.startOf emitter)).1.called ∧
      (set.retain emitter f world).set =
        (turns f (set.taken emitter world) (set.startOf emitter)).1.set.mergeBack emitter
          (turns f (set.taken emitter world) (set.startOf emitter)).2) := by
  rw [startOf, retain]
  cases set.subscribers emitter with
  | none => exact Or.inl ⟨rfl, rfl, rfl⟩
  | some entry =>
    cases entry with
    | none => exact Or.inl ⟨rfl, rfl, rfl⟩
    | some subscribers => exact Or.inr ⟨rfl, rfl⟩

section

variable {set : SubscriberSet K C} {emitter : K} {world : W}

theorem grows_taken (f : Visitor W K C) (emitter : K) (world : W) (h : set.Inv) :
    Grows (set.setEntry emitter (some none))
      (turns f (set.taken emitter world) (set.startOf emitter)).1.set :=
  @grows_turns _ _ _ _ f (set.taken emitter world) (inv_setEntry_placeholder h emitter) _

theorem older_retain (h : set.Inv) : Older set (set.retain emitter f world).set := by
  rcases retain_eq set emitter f world with ⟨_, _, heq⟩ | ⟨_, heq⟩
  · rw [heq]
    exact Older.refl h
  · rw [heq]
    have hgrows := grows_taken f emitter world h
    -- those that stay were registered when the pass began
    have hkept : ∀ id, id ∈ (turns f (set.taken emitter world)
        (set.startOf emitter)).2.map Prod.fst → set.Registered emitter id :=
      fun id hid => mem_startOf.mp ((kept_sublist _ _ _).subset hid)
    refine { inv := ⟨?_, hgrows.inv.issued⟩, next_le := hgrows.next_le, handles := hgrows.handles,
             dropped := hgrows.dropped, unregistered := ?_ }
    · intro other id hr
      rw [registered_mergeBack] at hr
      split at hr
      · next hother =>
        rw [hother]
        rcases hr with hr | hr
        · have hhandle := h.handle emitter id (hkept id hr)
          exact (hgrows.handles id (h.issued id emitter hhandle)).trans hhandle
        · exact hgrows.inv.handle emitter id hr
      · exact hgrows.inv.handle other id hr
    · intro id hid other hr
      rw [registered_mergeBack] at hr
      split at hr
      · next hother =>
        rw [hother]
        rcases hr with hr | hr
        · exact hkept id hr
        · -- the placeholder holds no old subscriber
          have hplace := hgrows.unregistered id hid emitter hr
          rw [registered_setEntry, if_pos rfl] at hplace
          obtain ⟨_, hcontra, _⟩ := hplace
          cases hcontra
      · next hother =>
        have hplace := hgrows.unregistered id hid other hr
        rwa [registered_setEntry, if_neg hother] at hplace

/-- Only subscribers that are registered and not dropped are called. -/
theorem registered_of_called (h : set.Inv) {id : Nat}
    (hid : id ∈ (set.retain emitter f world).called.map Prod.fst) :
    set.Registered emitter id ∧ set.dropped id = false := by
  rcases retain_eq set emitter f world with ⟨_, hcalled, _⟩ | ⟨hcalled, _⟩
  · rw [hcalled] at hid
    cases hid
  · rw [hcalled] at hid
    obtain ⟨calls, heq, hsub, hmem, _⟩ :=
      called_turns f (set.taken emitter world) (set.startOf emitter)
    rw [heq] at hid
    have hreg := mem_startOf.mp (hsub.subset hid)
    refine ⟨hreg, ?_⟩
    obtain ⟨before, callback, after, _, hready⟩ := (hmem id).mp hid
    have hgrows := @grows_turns _ _ _ _ f (set.taken emitter world)
      (inv_setEntry_placeholder h emitter) before
    by_contra hdropped
    have hlater := hgrows.dropped id (h.issued id emitter (h.handle emitter id hreg))
      (Bool.not_eq_false _ ▸ hdropped)
    rw [hready.2] at hlater
    cases hlater

end

/-! ## Subscribers that are never called again -/

/-- The subscriber was dropped, or it is no longer in the set. -/
def Gone (set : SubscriberSet K C) (id : Nat) : Prop :=
  id < set.nextSubscriberId ∧ (set.dropped id = true ∨ ∀ emitter, ¬ set.Registered emitter id)

variable {id : Nat} {set : SubscriberSet K C}

omit [DecidableEq K] in
theorem Gone.older {before after : SubscriberSet K C} (h : before.Gone id)
    (hold : Older before after) : after.Gone id := by
  obtain ⟨hid, hgone⟩ := h
  refine ⟨Nat.lt_of_lt_of_le hid hold.next_le, ?_⟩
  rcases hgone with hdropped | hnot
  · exact Or.inl (hold.dropped id hid hdropped)
  · exact Or.inr (fun emitter hr => hnot emitter (hold.unregistered id hid emitter hr))

/-- **Step lemma.**  A step makes the set older. -/
theorem older_step (h : set.Inv) (step : Step W K C) : Older set (set.step step).1 := by
  cases step with
  | op op => exact (grows_apply h op).toOlder
  | remove emitter => exact older_remove h emitter
  | retain emitter f world => exact older_retain h

theorem Gone.not_called (h : set.Inv) (hgone : set.Gone id) (step : Step W K C) :
    id ∉ (set.step step).2.map Prod.fst := by
  intro hid
  cases step with
  | op op => cases hid
  | remove emitter => cases hid
  | retain emitter f world =>
    obtain ⟨hreg, hdropped⟩ := registered_of_called h hid
    rcases hgone.2 with hgone | hgone
    · rw [hgone] at hdropped
      cases hdropped
    · exact hgone emitter hreg

omit [DecidableEq K] in
theorem inv_new : (new : SubscriberSet K C).Inv where
  handle := by
    intro emitter id ⟨subscribers, hentry, _⟩
    cases hentry
  issued := by
    intro id emitter h
    cases h

/-- **Run lemma.**  A run makes the set older, and calls no subscriber that is gone. -/
theorem run_spec (h : set.Inv) (steps : List (Step W K C)) :
    Older set (run set steps).1 ∧
      ∀ id, set.Gone id → id ∉ (run set steps).2.map Prod.fst := by
  induction steps generalizing set with
  | nil => exact ⟨Older.refl h, fun id _ hid => by cases hid⟩
  | cons step steps ih =>
    have hold := older_step h step
    obtain ⟨hrun, hcalls⟩ := ih hold.inv
    refine ⟨hold.trans hrun, ?_⟩
    intro id hgone hid
    simp only [run, map_append, mem_append] at hid
    rcases hid with hid | hid
    · exact hgone.not_called h step hid
    · exact hcalls id (hgone.older hold) hid

/-! ### One pass -/

section Pass

variable {set : SubscriberSet K C} {emitter : K} {f : Visitor W K C} {world : W}

/-- The calls of a pass are those of the turns; with no subscribers there are none. -/
theorem retain_called (set : SubscriberSet K C) (emitter : K) (f : Visitor W K C) (world : W) :
    (set.retain emitter f world).called =
      (turns f (set.taken emitter world) (set.startOf emitter)).1.called := by
  rcases retain_eq set emitter f world with ⟨hstart, hcalled, _⟩ | ⟨hcalled, _⟩
  · rw [hstart]
    exact hcalled
  · exact hcalled

/-- What is inserted during a pass is registered after it, unless it was dropped. -/
theorem Inv.retain_inserted (h : set.Inv) {id : Nat} (hge : set.nextSubscriberId ≤ id)
    (hlt : id < (set.retain emitter f world).set.nextSubscriberId) :
    ∃ emitter', (set.retain emitter f world).set.handles id = some emitter' ∧
      ((set.retain emitter f world).set.dropped id = true ∨
        (set.retain emitter f world).set.Registered emitter' id) := by
  rcases retain_eq set emitter f world with ⟨_, _, heq⟩ | ⟨_, heq⟩
  · -- a pass without subscribers inserts none
    rw [heq] at hlt
    omega
  · rw [heq] at hlt ⊢
    obtain ⟨emitter', hhandle, hstate⟩ := (grows_taken f emitter world h).inserted id hge hlt
    refine ⟨emitter', hhandle, ?_⟩
    rcases hstate with hdropped | hreg
    · exact Or.inl hdropped
    · right
      rw [registered_mergeBack]
      split
      · next heq => exact Or.inr (heq ▸ hreg)
      · exact hreg

/-- A subscriber that rejects its call is gone after the pass. -/
theorem Inv.retain_rejected (h : set.Inv) {id : Nat}
    (hfalse : (id, false) ∈ (set.retain emitter f world).called) :
    (set.retain emitter f world).set.Gone id := by
  obtain ⟨calls, hcalls, hsub, _, hreject⟩ :=
    called_turns f (set.taken emitter world) (set.startOf emitter)
  rw [retain_called, show _ = calls from hcalls] at hfalse
  have hold : Older set (set.retain emitter f world).set := older_retain h
  have hid : id ∈ calls.map Prod.fst := mem_map.mpr ⟨_, hfalse, rfl⟩
  have hhandle := h.handle emitter id (mem_startOf.mp (hsub.subset hid))
  have hlt := h.issued id emitter hhandle
  refine ⟨Nat.lt_of_lt_of_le hlt hold.next_le, Or.inr ?_⟩
  intro other hother
  -- it would still be registered under its own emitter
  have hold' := hold.unregistered id hlt other hother
  have hsame : other = emitter := Option.some.inj ((h.handle other id hold').symm.trans hhandle)
  rw [hsame] at hother
  rcases retain_eq set emitter f world with ⟨hstart, _, _⟩ | ⟨_, heq⟩
  · rw [hstart] at hsub
    cases hsub.subset hid
  · rw [heq, registered_mergeBack, if_pos rfl] at hother
    rcases hother with hkept | hgrown
    · exact hreject ((set.pairwise_startOf emitter).imp Nat.ne_of_lt) id hfalse hkept
    · have hplace := (grows_taken f emitter world h).unregistered id hlt emitter hgrown
      rw [registered_setEntry, if_pos rfl] at hplace
      obtain ⟨_, hcontra, _⟩ := hplace
      cases hcontra

end Pass

end SubscriberSet

end Gpui
