import Mathlib

/-! # Layers over values

    A layer says something about some parts of a value and nothing about the others.
    Laid over a value it replaces what it speaks of; laid over a layer it wins where
    both speak.  So layers are a monoid that acts on values from the right, and the
    laws of a compound are those of its parts. -/

namespace Overlay

/-- Layers `R` over values `V`: `covers x a` tests whether `a` is in `x` already. -/
structure Action (V R : Type) where
  apply  : V → R → V
  covers : V → R → Bool

/-- Layers over layers; `minus a b` is what `a` adds to `b`. -/
structure Layers (R : Type) extends Action R R where
  empty   : R
  isEmpty : R → Bool
  minus   : R → R → R

variable {V W R S : Type}

structure Layers.Lawful (l : Layers R) : Prop where
  apply_apply        : ∀ a b c, l.apply (l.apply a b) c = l.apply a (l.apply b c)
  apply_empty        : ∀ a, l.apply a l.empty = a
  empty_apply        : ∀ a, l.apply l.empty a = a
  isEmpty_iff        : ∀ a, l.isEmpty a = true ↔ a = l.empty
  covers_iff         : ∀ a b, l.covers a b = true ↔ l.apply a b = a
  isEmpty_minus_iff  : ∀ a b, l.isEmpty (l.minus a b) = true ↔ l.covers b a = true
  covers_apply_minus : ∀ a b, l.covers (l.apply b (l.minus a b)) a = true
  covers_minus       : ∀ a b, l.covers a (l.minus a b) = true

structure Action.Lawful (act : Action V R) (l : Layers R) : Prop where
  apply_apply : ∀ x a b, act.apply (act.apply x a) b = act.apply x (l.apply a b)
  apply_empty : ∀ x, act.apply x l.empty = x
  covers_iff  : ∀ x a, act.covers x a = true ↔ act.apply x a = x

variable {l : Layers R} {act : Action V R}

/-- Layers act on themselves. -/
theorem Layers.Lawful.action (lawful : l.Lawful) : l.toAction.Lawful l :=
  ⟨lawful.apply_apply, lawful.apply_empty, lawful.covers_iff⟩

/-! ## Pairs -/

def Action.prod (act : Action V R) (act' : Action W S) : Action (V × W) (R × S) where
  apply  := fun x a => (act.apply x.1 a.1, act'.apply x.2 a.2)
  covers := fun x a => act.covers x.1 a.1 && act'.covers x.2 a.2

def Layers.prod (l : Layers R) (l' : Layers S) : Layers (R × S) where
  toAction := l.toAction.prod l'.toAction
  empty    := (l.empty, l'.empty)
  isEmpty  := fun a => l.isEmpty a.1 && l'.isEmpty a.2
  minus    := fun a b => (l.minus a.1 b.1, l'.minus a.2 b.2)

theorem Action.prod_covers_iff {act' : Action W S}
    (h : ∀ x a, act.covers x a = true ↔ act.apply x a = x)
    (h' : ∀ x a, act'.covers x a = true ↔ act'.apply x a = x) (x : V × W) (a : R × S) :
    (act.prod act').covers x a = true ↔ (act.prod act').apply x a = x := by
  show (act.covers x.1 a.1 && act'.covers x.2 a.2) = true ↔
    (act.apply x.1 a.1, act'.apply x.2 a.2) = x
  rw [Bool.and_eq_true, h, h', Prod.ext_iff]

theorem Layers.Lawful.prod {l' : Layers S} (lawful : l.Lawful)
    (lawful' : l'.Lawful) : (l.prod l').Lawful where
  apply_apply a b c :=
    Prod.ext (lawful.apply_apply a.1 b.1 c.1) (lawful'.apply_apply a.2 b.2 c.2)
  apply_empty a := Prod.ext (lawful.apply_empty a.1) (lawful'.apply_empty a.2)
  empty_apply a := Prod.ext (lawful.empty_apply a.1) (lawful'.empty_apply a.2)
  isEmpty_iff a := by
    show (l.isEmpty a.1 && l'.isEmpty a.2) = true ↔ a = (l.empty, l'.empty)
    rw [Bool.and_eq_true, lawful.isEmpty_iff, lawful'.isEmpty_iff, Prod.ext_iff]
  covers_iff := Action.prod_covers_iff lawful.covers_iff lawful'.covers_iff
  isEmpty_minus_iff a b := by
    show (l.isEmpty (l.minus a.1 b.1) && l'.isEmpty (l'.minus a.2 b.2)) = true ↔
      (l.covers b.1 a.1 && l'.covers b.2 a.2) = true
    rw [Bool.and_eq_true, Bool.and_eq_true, lawful.isEmpty_minus_iff, lawful'.isEmpty_minus_iff]
  covers_apply_minus a b := by
    show (l.covers _ a.1 && l'.covers _ a.2) = true
    rw [Bool.and_eq_true]
    exact ⟨lawful.covers_apply_minus a.1 b.1, lawful'.covers_apply_minus a.2 b.2⟩
  covers_minus a b := by
    show (l.covers a.1 _ && l'.covers a.2 _) = true
    rw [Bool.and_eq_true]
    exact ⟨lawful.covers_minus a.1 b.1, lawful'.covers_minus a.2 b.2⟩

theorem Action.Lawful.prod {act' : Action W S} {l' : Layers S}
    (lawful : act.Lawful l) (lawful' : act'.Lawful l') : (act.prod act').Lawful (l.prod l') where
  apply_apply x a b :=
    Prod.ext (lawful.apply_apply x.1 a.1 b.1) (lawful'.apply_apply x.2 a.2 b.2)
  apply_empty x := Prod.ext (lawful.apply_empty x.1) (lawful'.apply_empty x.2)
  covers_iff := Action.prod_covers_iff lawful.covers_iff lawful'.covers_iff

/-! ## Stacks of layers -/

/-- Layers merged from the bottom up lie over a value as they do one by one. -/
theorem Action.Lawful.apply_foldl (lawful : act.Lawful l) (x : V) (a : R) (as : List R) :
    act.apply x (as.foldl l.apply a) = as.foldl act.apply (act.apply x a) := by
  induction as generalizing a with
  | nil => rfl
  | cons b as ih =>
    rw [List.foldl_cons, List.foldl_cons, ih, lawful.apply_apply]

end Overlay
