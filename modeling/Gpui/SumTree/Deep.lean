import Gpui.SumTree.Reachable

/-! # SumTree: what does not fit

    A cursor has room for 16 stack entries, a height for 255 levels.  Appending a
    tree to itself doubles its items, and a tree of a given height holds boundedly
    many, so reachable trees grow beyond both. -/

set_option linter.unusedSectionVars false

namespace Gpui

open Exec (Returns Ensures Next loop)

variable {T S D : Type} [Summary S] [Item T S] [Dimension D S]

/-! ## Trees that grow -/

namespace SumTree

theorem Wf.length_toList_le {h : Nat} : ∀ {t : SumTree T S}, Wf h t →
    t.toList.length ≤ nodeCapacity ^ (h + 1) := by
  induction h with
  | zero =>
    intro t wf
    cases wf with
    | leaf _ le => simpa using le
  | succ h ih =>
    intro t wf
    cases wf with
    | @internal _ cts _ le children =>
      have hforest : ∀ cts : List (SumTree T S), (∀ c ∈ cts, Wf h c) →
          (toListForest cts).length ≤ cts.length * nodeCapacity ^ (h + 1) := by
        intro cts
        induction cts with
        | nil => simp
        | cons c cs ihcs =>
          intro hw
          have hc := ih (hw c (by simp))
          have hcs := ihcs fun b hb => hw b (by simp [hb])
          rw [toListForest_cons, List.length_append, List.length_cons, Nat.add_mul]
          omega
      have hle := hforest cts children
      rw [toList_internal, Nat.pow_succ nodeCapacity (h + 1), Nat.mul_comm]
      exact Nat.le_trans hle (Nat.mul_le_mul_right _ le)

theorem WellFormed.length_toList_le {t : SumTree T S} (wf : t.WellFormed) :
    t.toList.length ≤ nodeCapacity ^ (t.height + 1) := by
  rcases wf with rfl | ⟨h, _, wf⟩
  · simp [new]
  · rw [wf.height_eq]
    exact wf.length_toList_le

end SumTree

section Growth

variable [LawfulSummary S]

/-- Appending a tree to itself goes on until a height outgrows `u8`. -/
theorem exists_doubled (x : T) (n : Nat) :
    (∃ t : SumTree T S, Reachable t ∧ t.toList.length = 2 ^ n) ∨
      ∃ t : SumTree T S, Reachable t ∧ t.append t = .error .addOverflow := by
  induction n with
  | zero => exact .inl ⟨_, .fromItem (x := x) rfl, by simp⟩
  | succ n ih =>
    rcases ih with ⟨t, reach, hlen⟩ | h
    · have happend := SumTree.append_spec reach.wellFormed reach.wellFormed
      match hr : t.append t with
      | .ok r =>
        refine .inl ⟨r, .append reach reach hr, ?_⟩
        rw [(happend.of_ok hr).items, List.length_append, hlen, Nat.pow_succ]
        omega
      | .error e =>
        obtain ⟨rfl, -⟩ := happend.of_error hr
        exact .inr ⟨t, reach, hr⟩
    · exact .inr h

/-- Some reachable tree cannot be appended to itself. -/
theorem exists_append_overflow (x : T) :
    ∃ t : SumTree T S, Reachable t ∧ t.append t = .error .addOverflow := by
  rcases exists_doubled (S := S) x 918 with ⟨t, reach, hlen⟩ | h
  · exfalso
    have hle := reach.wellFormed.length_toList_le
    have hpow : nodeCapacity ^ (t.height + 1) ≤ 12 ^ 256 :=
      Nat.pow_le_pow_right (by decide) (by have := reach.wellFormed.height_le; omega)
    rw [hlen] at hle
    have hlt : 12 ^ 256 < 2 ^ 918 := by decide +kernel
    exact Nat.not_le.mpr hlt (Nat.le_trans hle hpow)
  · exact h

/-- Some reachable tree has more levels than a cursor has stack entries. -/
theorem exists_deep (x : T) : ∃ t : SumTree T S, Reachable t ∧ 16 ≤ t.height := by
  rcases exists_doubled (S := S) x 58 with ⟨t, reach, hlen⟩ | ⟨t, reach, herror⟩
  · refine ⟨t, reach, ?_⟩
    by_contra hlt
    have hle := reach.wellFormed.length_toList_le
    have hpow : nodeCapacity ^ (t.height + 1) ≤ 12 ^ 16 :=
      Nat.pow_le_pow_right (by decide) (by omega)
    rw [hlen] at hle
    have hpow' : 12 ^ 16 < 2 ^ 58 := by decide +kernel
    exact Nat.not_le.mpr hpow' (Nat.le_trans hle hpow)
  · obtain ⟨-, hheight⟩ :=
      (SumTree.append_spec reach.wellFormed reach.wellFormed).of_error herror
    exact ⟨t, reach, by omega⟩

end Growth

/-! ## Stacks that overflow -/

namespace Cursor

section Room

variable {A : Type} [SeekAggregate A T S] {target : SeekTarget D} {bias : Bias}

/-- A computation of which only the value returned matters. -/
theorem ensures_true {α : Type} (x : Run α) : Ensures (fun _ => True) (fun _ => True) x := by
  cases x <;> trivial

theorem pushEntry_room (stack : List (StackEntry T S D)) (e : StackEntry T S D) :
    Ensures (fun st => st.length ≤ stackCapacity) (fun _ => True) (pushEntry stack e) := by
  unfold pushEntry
  split
  · next hlt => exact hlt
  · trivial

/-- The stack never outgrows its array. -/
theorem seekStep_room {st : SeekState T S D A} (hroom : st.stack.length ≤ stackCapacity) :
    Ensures (Exec.Keeps (fun st : SeekState T S D A => st.stack.length ≤ stackCapacity)
      (fun st => st.stack.length ≤ stackCapacity)) (fun _ => True) (seekStep target bias st) := by
  obtain ⟨stack, position, ascending, a⟩ := st
  match stack with
  | [] => exact hroom
  | e :: rest =>
    have hrest : rest.length ≤ stackCapacity := by
      have : rest.length + 1 ≤ stackCapacity := hroom
      omega
    unfold seekStep
    dsimp only
    split
    · generalize (if ascending = true then _ else e) = entry
      split
      · trivial
      · refine (ensures_true _).bind ?_
        rintro ⟨child, entry, position', a'⟩ -
        cases child with
        | none => exact hrest
        | some c => exact (pushEntry_room _ _).bind fun st hst => hst
    · split
      · trivial
      · refine (ensures_true _).bind ?_
        rintro ⟨stopped, entry, position', a'⟩ -
        refine (ensures_true _).bind fun a'' _ => ?_
        cases stopped with
        | true => exact hroom
        | false => exact hrest

theorem seekFinish_room {c : Cursor T S D} {st : SeekState T S D A}
    (hroom : st.stack.length ≤ stackCapacity) :
    Ensures (fun r => r.1.stack.length ≤ stackCapacity) (fun _ => True)
      (seekFinish target bias c st) := by
  obtain ⟨stack, position, ascending, a⟩ := st
  unfold seekFinish
  cases bias with
  | left =>
    match stack with
    | [] =>
      refine (ensures_true _).bind fun s _ => ?_
      cases s <;> exact hroom
    | e :: rest =>
      cases hleaf : e.tree.isLeaf with
      | true =>
        simp only [hleaf]
        refine (ensures_true _).bind fun s _ => ?_
        cases s <;> exact hroom
      | false =>
        simp only [hleaf]
        trivial
  | right =>
    match stack with
    | [] => exact hroom
    | e :: rest =>
      cases hleaf : e.tree.isLeaf with
      | true =>
        simp only [hleaf]
        exact hroom
      | false =>
        simp only [hleaf]
        trivial

end Room

/-- To stand on an item of a deep tree takes more entries than there is room for. -/
theorem At.height_le {P : List T → D → Prop} {root : SumTree T S} {before after : List T}
    {c : Cursor T S D} (pos : c.At P root before after) (hne : after ≠ [])
    (hroom : c.stack.length ≤ stackCapacity) : root.height ≤ 15 := by
  have hresting := pos.stack
  generalize c.stack = stack at hresting hroom
  cases hresting with
  | item path =>
    have hlen := path.length
    simp only [List.length_cons, stackCapacity] at hroom
    omega
  | finished => exact absurd rfl hne

theorem toList_ne_nil_of_deep {root : SumTree T S} (hroot : root.WellFormed)
    (hdeep : 16 ≤ root.height) : root.toList ≠ [] := by
  rcases hroot with rfl | ⟨h, _, wf⟩
  · simp [SumTree.new, SumTree.height] at hdeep
  · exact wf.toList_ne_nil

section Deep

variable {A : Type} [SeekAggregate A T S] {target : SeekTarget D} {bias : Bias}

/-- A seek that stops at an item of too deep a tree overflows the stack. -/
theorem seekInternal_deep [LawfulSummary S] [LawfulDimension D S] {root : SumTree T S}
    {R : Nat → List T → A → Prop} {L : Nat → List T → List T → A → Prop}
    {E : Nat → Panic → Prop} (hroot : root.WellFormed) (hdeep : 16 ≤ root.height)
    (ag : Aggregates R L E root.height) {a : A} (collected : R 0 [] a)
    (hnot : Gpui.reached target bias (measure D root.toList) = false) :
    ∃ e, (Cursor.new root).seekInternal target bias a = .error e := by
  match hr : (Cursor.new root).seekInternal target bias a with
  | .error e => exact ⟨e, rfl⟩
  | .ok r =>
    exfalso
    have hback : target (Cursor.new root : Cursor T S D).position ≠ .lt := by
      intro hlt
      unfold seekInternal at hr
      rw [if_pos hlt] at hr
      cases hr
    have standing : Standing Measured root [] root.toList (Cursor.new root : Cursor T S D) :=
      .inl ⟨rfl, rfl, rfl⟩
    obtain ⟨n, mid, after, ⟨hsplit, pos, hreached, -⟩, -, -⟩ :=
      (seekInternal_spec Tracks.measured hroot ag standing collected).of_ok hr
    have hroom : r.1.stack.length ≤ stackCapacity := by
      rw [seekInternal_eq hback (.inr ⟨rfl, rfl⟩)] at hr
      refine (Ensures.bind ?_ fun st hst => seekFinish_room hst).of_ok hr
      exact Exec.loop_partial _ (fun st hst => seekStep_room hst) _ _
        (show 1 ≤ stackCapacity by decide)
    -- the cursor stands before the end, since the target does not reach it
    have hitems : after ≠ [] := by
      rintro rfl
      have hposition : r.1.position = measure D mid := pos.position
      rw [List.append_nil] at hsplit
      rw [hsplit, ← hposition, hreached (hsplit ▸ toList_ne_nil_of_deep hroot hdeep)] at hnot
      exact Bool.noConfusion hnot
    have := pos.height_le hitems hroom
    omega

end Deep

section

variable [LawfulSummary S] [LawfulDimension D S] {root : SumTree T S}

section

variable (target : SeekTarget D) (bias : Bias) (hroot : root.WellFormed)
  (hdeep : 16 ≤ root.height) (hnot : Gpui.reached target bias (measure D root.toList) = false)
include hroot hdeep hnot

theorem seek_deep : ∃ e, (Cursor.new root).seek target bias = .error e := by
  obtain ⟨e, he⟩ := seekInternal_deep hroot hdeep (aggregates_unit _) (a := ()) trivial hnot
  refine ⟨e, ?_⟩
  have hreset : (Cursor.new root : Cursor T S D).reset = .new root := rfl
  unfold seek
  rw [hreset, he]
  rfl

theorem slice_deep : ∃ e, (Cursor.new root).slice target bias = .error e := by
  have hempty : SlicedLeaf (T := T) (S := S) root.height 0 [] [] ⟨.new, [], [], Summary.zero⟩ :=
    .new
  obtain ⟨e, he⟩ := seekInternal_deep hroot hdeep (aggregates_slice hroot.height_le) hempty hnot
  refine ⟨e, ?_⟩
  simp only [slice, he]
  rfl

end

end

/-! ## Walking a deep tree -/

/-- The states a forward search ends in have no more entries than there is room for. -/
def ForwardEnd.Roomy : ForwardEnd T S D → Prop
  | .returned st  => st.stack.length ≤ stackCapacity
  | .exhausted st => st.stack.length ≤ stackCapacity

theorem forwardStep_room {filterNode : S → Bool} {st : WalkState T S D}
    (hroom : st.stack.length ≤ stackCapacity) :
    Ensures (Exec.Keeps (fun st : WalkState T S D => st.stack.length ≤ stackCapacity)
      ForwardEnd.Roomy) (fun _ => True) (forwardStep filterNode st) := by
  obtain ⟨stack, position, descend⟩ := st
  match stack with
  | [] => exact hroom
  | e :: rest =>
    have hrest : rest.length ≤ stackCapacity := by
      have : rest.length + 1 ≤ stackCapacity := hroom
      omega
    unfold forwardStep
    dsimp only
    split
    · split
      · exact (pushEntry_room _ _).bind fun st hst => hst
      · exact hrest
    · cases descend with
      | true =>
        simp only [if_true, Exec.pure_eq_ok, Exec.ok_bind]
        split
        · exact hroom
        · exact hrest
      | false =>
        refine (ensures_true _).bind fun itemSummary _ => ?_
        simp only [Exec.pure_eq_ok, Exec.ok_bind]
        split
        · exact hroom
        · exact hrest

/-- `next` cannot enter too deep a tree. -/
theorem next_deep [LawfulSummary S] [LawfulDimension D S] {root : SumTree T S}
    (hroot : root.WellFormed) (hdeep : 16 ≤ root.height) :
    ∃ e, (Cursor.new root : Cursor T S D).next = .error e := by
  match hr : (Cursor.new root : Cursor T S D).next with
  | .error e => exact ⟨e, rfl⟩
  | .ok c =>
    exfalso
    have pos := (next_spec Tracks.measured hroot .new).of_ok hr
    have hroom : c.stack.length ≤ stackCapacity := by
      unfold next at hr
      rw [searchForward_eq_of_nil rfl] at hr
      refine Ensures.of_ok (E := fun _ => True)
        (Q := fun c : Cursor T S D => c.stack.length ≤ stackCapacity)
        (Ensures.bind (Q := ForwardEnd.Roomy) ?_ ?_) hr
      · refine Exec.loop_partial _ (fun st hst => forwardStep_room hst) _ _ ?_
        cases (Cursor.new root : Cursor T S D).atEnd <;> simp [stackCapacity]
      · rintro (st | st) hst <;> exact hst
    have := pos.height_le (toList_ne_nil_of_deep hroot hdeep) hroom
    omega

end Cursor

end Gpui
