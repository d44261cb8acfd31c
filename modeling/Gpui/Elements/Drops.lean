import Gpui.Panic

/-! # Drops

    A drag that is released goes to the listeners of the elements under it, the innermost
    first.  An element has listeners for values of some types, and maybe a predicate that
    refuses values.

    * **`release_drops_iff`**: the listeners of the innermost element that accepts the value
      are called iff the innermost element that has listeners for its type has one of them,
      and accepts it or no other element does.  Two listeners of one type panic, and an element
      that refuses the value takes it away from those around it. -/

namespace Gpui

open List

namespace Drops

/-! ## The model -/

/-- A value that is dragged; `T` are types. -/
structure AnyDrag (T V : Type) where
  type : T
  value : V

/-- An element; `L` are listeners. -/
structure DropTarget (T V L : Type) where
  hovered : Bool
  dropListeners : List (T × L)
  canDropPredicate : Option (V → Bool)

/-- What listeners see, and which of them were called with a value. -/
structure State (T V L : Type) where
  activeDrag : Option (AnyDrag T V)
  propagateEvent : Bool
  calls : List (L × V)

variable {T V L : Type} [DecidableEq T]

/-- The loop over the listeners of an element, which takes the drag for each one of its type. -/
def callListeners (canDropPredicate : Option (V → Bool)) (dragStateType : T) :
    List (T × L) → State T V L → Run (State T V L)
  | [], s => .ok s
  | (dropStateType, listener) :: rest, s =>
      if dropStateType = dragStateType then
        match s.activeDrag with
        -- "checked for type drag state type above"
        | none => .error .unwrapNone
        | some drag =>
            let canDrop :=
              match canDropPredicate with
              | some predicate => predicate drag.value
              | none           => true
            let s := { s with activeDrag := none }
            let s :=
              if canDrop then
                { s with calls := s.calls ++ [(listener, drag.value)], propagateEvent := false }
              else s
            callListeners canDropPredicate dragStateType rest s
      else callListeners canDropPredicate dragStateType rest s

/-- The listener of an element for releases that bubble up. -/
def DropTarget.mouseUp (self : DropTarget T V L) (s : State T V L) : Run (State T V L) :=
  match s.activeDrag with
  | some drag =>
      if self.hovered then
        callListeners self.canDropPredicate drag.type self.dropListeners s
      else .ok s
  | none => .ok s

/-- The listeners of the window, until one stops the event. -/
def bubble : List (DropTarget T V L) → State T V L → Run (State T V L)
  | [], s => .ok s
  | target :: rest, s => do
      let s ← target.mouseUp s
      if s.propagateEvent then bubble rest s else .ok s

/-- A release over elements, the innermost first.  It ends the drag in any case. -/
def release (stack : List (DropTarget T V L)) (drag : AnyDrag T V) : Run (State T V L) := do
  let s ← bubble stack ⟨some drag, true, []⟩
  .ok { s with activeDrag := none }

/-! ## What drops should be -/

/-- The listeners of an element for a drag. -/
def DropTarget.listenersFor (self : DropTarget T V L) (drag : AnyDrag T V) : List L :=
  if self.hovered then
    (self.dropListeners.filter (fun item => item.1 = drag.type)).map Prod.snd
  else []

omit [DecidableEq T] in
def DropTarget.accepts (self : DropTarget T V L) (drag : AnyDrag T V) : Bool :=
  match self.canDropPredicate with
  | some predicate => predicate drag.value
  | none           => true

/-- The calls of the listeners of the innermost element that accepts the drag. -/
def wanted (stack : List (DropTarget T V L)) (drag : AnyDrag T V) : List (L × V) :=
  match stack.find? (fun target =>
    ! (target.listenersFor drag).isEmpty && target.accepts drag) with
  | some target => (target.listenersFor drag).map (fun listener => (listener, drag.value))
  | none        => []

/-- The release does not panic and calls these listeners. -/
def CallsWanted (stack : List (DropTarget T V L)) (drag : AnyDrag T V) : Prop :=
  ∃ s, release stack drag = .ok s ∧ s.calls = wanted stack drag

/-- The innermost element with listeners for the drag has one, and it accepts the drag or no
    element around it does. -/
def Heeds (stack : List (DropTarget T V L)) (drag : AnyDrag T V) : Prop :=
  ∀ inner target outer, stack = inner ++ target :: outer →
    (∀ other ∈ inner, other.listenersFor drag = []) → target.listenersFor drag ≠ [] →
      (target.listenersFor drag).length = 1 ∧
        (target.accepts drag = true ∨
          ∀ other ∈ outer, other.listenersFor drag ≠ [] → other.accepts drag = false)

/-! ## One element -/

/-- Once the drag was taken, another listener of its type panics. -/
theorem callListeners_taken (canDropPredicate : Option (V → Bool)) (dragType : T)
    (items : List (T × L)) {s : State T V L} (hnone : s.activeDrag = none) :
    callListeners canDropPredicate dragType items s =
      if (items.filter (fun item => item.1 = dragType)).isEmpty then .ok s
      else .error .unwrapNone := by
  induction items with
  | nil => rfl
  | cons item rest ih =>
    rw [callListeners]
    split
    · next heq =>
      rw [filter_cons_of_pos (by simpa using heq), hnone]
      rfl
    · next hne => rw [filter_cons_of_neg (by simpa using hne), ih]

/-- The first listener of the type takes the drag. -/
theorem mouseUp_eq (target : DropTarget T V L) (drag : AnyDrag T V) :
    target.mouseUp ⟨some drag, true, []⟩ =
      match target.listenersFor drag with
      | []         => .ok ⟨some drag, true, []⟩
      | [listener] =>
          .ok ⟨none, !target.accepts drag,
            if target.accepts drag then [(listener, drag.value)] else []⟩
      | _          => .error .unwrapNone := by
  unfold DropTarget.mouseUp DropTarget.listenersFor
  by_cases hhovered : target.hovered = true
  · dsimp only
    rw [if_pos hhovered, if_pos hhovered]
    induction target.dropListeners with
    | nil => rfl
    | cons item rest ih =>
      by_cases heq : item.1 = drag.type
      · rw [callListeners, if_pos heq, filter_cons_of_pos (by simpa using heq)]
        show callListeners target.canDropPredicate drag.type rest
          (if target.accepts drag then ⟨none, false, [] ++ [(item.2, drag.value)]⟩
            else ⟨none, true, []⟩) = _
        rw [callListeners_taken _ _ _ (by split <;> rfl)]
        cases hrest : rest.filter (fun item => item.1 = drag.type) with
        | nil =>
          -- the only one
          cases target.accepts drag <;> rfl
        | cons other more => rfl
      · rw [callListeners, if_neg heq, filter_cons_of_neg (by simpa using heq), ih]
  · simp [hhovered]

/-! ## All elements -/

/-- Without a drag nothing is called. -/
theorem bubble_taken (stack : List (DropTarget T V L)) {s : State T V L}
    (hnone : s.activeDrag = none) : bubble stack s = .ok s := by
  induction stack with
  | nil => rfl
  | cons target rest ih =>
    have hsame : target.mouseUp s = .ok s := by
      unfold DropTarget.mouseUp
      rw [hnone]
    rw [bubble, hsame, Exec.ok_bind]
    split
    · exact ih
    · rfl

variable {target : DropTarget T V L} {drag : AnyDrag T V}

theorem wanted_cons_of_nil
    (h : target.listenersFor drag = []) (rest : List (DropTarget T V L)) :
    wanted (target :: rest) drag = wanted rest drag := by
  unfold wanted
  rw [find?_cons_of_neg (by simp [h])]

theorem heeds_cons_of_nil
    (h : target.listenersFor drag = []) (rest : List (DropTarget T V L)) :
    Heeds (target :: rest) drag ↔ Heeds rest drag := by
  constructor
  · intro hheeds inner other outer hstack hinner hne
    refine hheeds (target :: inner) other outer (by rw [hstack]; rfl) ?_ hne
    intro other' hmem
    obtain rfl | hrest := mem_cons.mp hmem
    · exact h
    · exact hinner other' hrest
  · intro hheeds inner other outer hstack hinner hne
    cases inner with
    | nil =>
      obtain ⟨rfl, _⟩ := List.cons.inj hstack
      exact absurd h hne
    | cons first inner =>
      obtain ⟨_, hrest⟩ := List.cons.inj hstack
      exact hheeds inner other outer hrest
        (fun other' hmem => hinner other' (mem_cons_of_mem _ hmem)) hne

/-- The condition for a stack whose innermost element has listeners. -/
theorem heeds_cons
    (h : target.listenersFor drag ≠ []) (rest : List (DropTarget T V L)) :
    Heeds (target :: rest) drag ↔
      (target.listenersFor drag).length = 1 ∧
        (target.accepts drag = true ∨
          ∀ other ∈ rest, other.listenersFor drag ≠ [] → other.accepts drag = false) := by
  constructor
  · intro hheeds
    exact hheeds [] target rest rfl (by simp) h
  · intro hcond inner other outer hstack hinner hne
    cases inner with
    | nil =>
      obtain ⟨rfl, rfl⟩ := List.cons.inj hstack
      exact hcond
    | cons first inner =>
      obtain ⟨rfl, _⟩ := List.cons.inj hstack
      exact absurd (hinner _ mem_cons_self) h

/-- If no element accepts the drag, no listener should be called. -/
theorem wanted_eq_nil_iff {stack : List (DropTarget T V L)} :
    wanted stack drag = [] ↔
      ∀ other ∈ stack, other.listenersFor drag ≠ [] → other.accepts drag = false := by
  unfold wanted
  cases hfind : stack.find? (fun target =>
      ! (target.listenersFor drag).isEmpty && target.accepts drag) with
  | none =>
    simpa using hfind
  | some target =>
    have hmem := mem_of_find?_eq_some hfind
    have haccepts := find?_some hfind
    simp only [Bool.and_eq_true, Bool.not_eq_true', isEmpty_eq_false_iff] at haccepts
    simp only [map_eq_nil_iff]
    constructor
    · intro hnil
      exact absurd hnil haccepts.1
    · intro hrefuse
      have := hrefuse target hmem haccepts.1
      rw [haccepts.2] at this
      cases this

/-- By induction on the elements: those without listeners for the drag are passed. -/
theorem release_drops_iff (stack : List (DropTarget T V L)) (drag : AnyDrag T V) :
    CallsWanted stack drag ↔ Heeds stack drag := by
  have hbubble : CallsWanted stack drag ↔
      ∃ s, bubble stack ⟨some drag, true, []⟩ = .ok s ∧ s.calls = wanted stack drag := by
    unfold CallsWanted release
    constructor
    · intro h
      obtain ⟨s, hs, hcalls⟩ := h
      obtain ⟨s', hs', hs⟩ := Exec.bind_eq_ok.mp hs
      cases hs
      exact ⟨s', hs', hcalls⟩
    · intro h
      obtain ⟨s, hs, hcalls⟩ := h
      refine ⟨{ s with activeDrag := none }, ?_, hcalls⟩
      rw [hs, Exec.ok_bind]
  rw [hbubble]
  clear hbubble
  induction stack with
  | nil =>
    constructor
    · intro _ inner target outer hstack
      simp at hstack
    · intro _
      exact ⟨_, rfl, rfl⟩
  | cons target rest ih =>
    rw [bubble, mouseUp_eq]
    cases hlisteners : target.listenersFor drag with
    | nil =>
      rw [heeds_cons_of_nil hlisteners, wanted_cons_of_nil hlisteners]
      exact ih
    | cons listener more =>
      have hne : target.listenersFor drag ≠ [] := by
        rw [hlisteners]
        simp
      rw [heeds_cons hne, hlisteners]
      cases more with
      | cons other more =>
        -- the second listener panics
        simp [Exec.error_bind]
      | nil =>
        dsimp only
        rw [Exec.ok_bind]
        dsimp only
        cases haccepts : target.accepts drag with
        | true =>
          have hwanted : wanted (target :: rest) drag = [(listener, drag.value)] := by
            unfold wanted
            rw [find?_cons_of_pos (by simp [hlisteners, haccepts])]
            simp [hlisteners]
          rw [hwanted]
          simp
        | false =>
          have hwanted : wanted (target :: rest) drag = wanted rest drag := by
            unfold wanted
            rw [find?_cons_of_neg (by simp [haccepts])]
          have hrest := bubble_taken rest (s := (⟨none, true, []⟩ : State T V L)) rfl
          rw [hwanted]
          simp only [Bool.not_false, if_true, Bool.false_eq_true, if_false, false_or]
          rw [hrest, ← wanted_eq_nil_iff]
          constructor
          · intro h
            obtain ⟨s, hs, hcalls⟩ := h
            cases hs
            exact ⟨rfl, hcalls.symm⟩
          · intro h
            exact ⟨_, rfl, h.2.symm⟩

/-- An element with two listeners of one type. -/
def twice : List (DropTarget Nat Nat Nat) := [⟨true, [(0, 1), (0, 2)], none⟩]

/-- The second listener finds the drag taken. -/
theorem release_twice_panics :
    release twice ⟨0, 5⟩ = .error .unwrapNone ∧ ¬ CallsWanted twice ⟨0, 5⟩ := by
  constructor
  · rfl
  · intro h
    obtain ⟨s, hs, _⟩ := h
    cases hs

end Drops

end Gpui
