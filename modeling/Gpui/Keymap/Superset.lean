import Gpui.Keymap.Context

/-! # Keymap: when `is_superset` can be trusted

    `is_superset` compares two predicates by their shape, and for `parent > child`
    it forgets the parent.  The child was matched on a part of the stack, below
    the parent, so an answer is sound just when that match survives with the contexts
    that the parents took: a negation looks at every context of the stack and need not
    survive. -/

namespace Gpui

namespace KeyBindingContextPredicate

variable {a : KeyBindingContextPredicate} {contexts : List KeyContext}

/-! ## The contexts that parents take -/

/-- When a predicate is evaluated on a stack, some parents in it take the first `n`
    contexts, and a part of it is evaluated on the others. -/
inductive Takes : KeyBindingContextPredicate → List KeyContext → Nat → Prop where
  | nothing (b : KeyBindingContextPredicate) (contexts : List KeyContext) : Takes b contexts 0
  /-- The parent takes the contexts up to the first place where it holds. -/
  | parent {parent child : KeyBindingContextPredicate} {contexts : List KeyContext} {i n : Nat}
      (hi : i + 1 < contexts.length)
      (hparent : parent.evalInner (contexts.take (i + 1)) contexts = true)
      (hfirst : ∀ j < i, parent.evalInner (contexts.take (j + 1)) contexts = false)
      (h : Takes child (contexts.drop (i + 1)) n) :
      Takes (descendant parent child) contexts (i + 1 + n)
  | left {left right : KeyBindingContextPredicate} {contexts : List KeyContext} {n : Nat}
      (h : Takes left contexts n) : Takes (and left right) contexts n
  | right {left right : KeyBindingContextPredicate} {contexts : List KeyContext} {n : Nat}
      (h : Takes right contexts n) : Takes (and left right) contexts n

/-- Where `b` matches, a match of `a` below some parents in `b` survives with the
    contexts that they took. -/
def Survives (a b : KeyBindingContextPredicate) : Prop :=
  ∀ contexts n, b.eval contexts = true → 0 < n → Takes b contexts n →
    a.eval (contexts.drop n) = true → a.eval contexts = true

/-! ## What a positive answer means -/

/-- If `a` is a superset of `b`, every match of `b` has a match of `a` below some
    parents in `b`. -/
theorem exists_takes_of_isSuperset {b : KeyBindingContextPredicate}
    (h : a.isSuperset b = true) (hb : b.eval contexts = true) :
    ∃ n, Takes b contexts n ∧ a.eval (contexts.drop n) = true := by
  fun_induction isSuperset a b generalizing contexts with
  | case1 a => exact ⟨0, .nothing .., hb⟩
  | case2 b left right hne ihl ihr =>
    rw [Bool.or_eq_true] at h
    rcases h with hl | hr
    · obtain ⟨n, htakes, hn⟩ := ihl hl hb
      exact ⟨n, htakes, by rw [eval, evalInner_or, Bool.or_eq_true]; exact Or.inl hn⟩
    · obtain ⟨n, htakes, hn⟩ := ihr hr hb
      exact ⟨n, htakes, by rw [eval, evalInner_or, Bool.or_eq_true]; exact Or.inr hn⟩
  | case3 a hor parent child hne ih =>
    -- the child holds on the part of the stack below the parent
    obtain ⟨i, hi, hparent, hfirst, hchild⟩ := evalInner_descendant.mp hb
    obtain ⟨n, htakes, hn⟩ := ih h hchild
    rw [List.drop_drop] at hn
    exact ⟨_, .parent hi hparent hfirst htakes, hn⟩
  | case4 a hor left right hne ihl ihr =>
    rw [eval, evalInner_and, Bool.and_eq_true] at hb
    rw [Bool.or_eq_true] at h
    rcases h with hl | hr
    · obtain ⟨n, htakes, hn⟩ := ihl hl hb.1
      exact ⟨n, .left htakes, hn⟩
    · obtain ⟨n, htakes, hn⟩ := ihr hr hb.2
      exact ⟨n, .right htakes, hn⟩
  | case5 => cases h
  | case6 => cases h
  | case7 => cases h
  | case8 => cases h
  | case9 => cases h

theorem isSuperset_refl (a : KeyBindingContextPredicate) : a.isSuperset a = true := by
  unfold isSuperset
  simp

/-- `is_superset` does not look at the parent of a `>`. -/
theorem isSuperset_descendant {parent child : KeyBindingContextPredicate}
    (hor : ∀ left right, a ≠ or left right) (h : a.isSuperset child = true) :
    a.isSuperset (descendant parent child) = true := by
  unfold isSuperset
  split
  · rfl
  · cases a with
    | or left right => exact absurd rfl (hor left right)
    | _ => exact h

/-! ## The exact condition -/

/-- **When `is_superset` is sound.**  An answer is sound exactly when the matches of `a`
    below parents in `b` survive with the contexts that these took. -/
theorem isSuperset_sound_iff {a b : KeyBindingContextPredicate} (h : a.isSuperset b = true) :
    (∀ contexts, b.eval contexts = true → a.eval contexts = true) ↔ Survives a b := by
  constructor
  · intro hsound contexts n hb _ _ _
    exact hsound contexts hb
  · intro hsurvives contexts hb
    obtain ⟨n, htakes, hn⟩ := exists_takes_of_isSuperset h hb
    rcases Nat.eq_zero_or_pos n with rfl | hpos
    · exact hn
    · exact hsurvives contexts n hb hpos htakes hn

/-- A predicate with `!` is a superset of itself with more conditions. -/
theorem isSuperset_sound_iff_negation :
    Survives (not (identifier ['x'])) (and (identifier ['y']) (not (identifier ['x']))) ∧
      ∀ contexts, (and (identifier ['y']) (not (identifier ['x']))).eval contexts = true →
        (not (identifier ['x'])).eval contexts = true := by
  rw [← isSuperset_sound_iff (by simp [isSuperset]), and_self]
  apply (isSuperset_sound_iff (by simp [isSuperset])).2
  -- there is no parent in it
  rintro contexts n - hpos (_ | _ | htakes | htakes)
  · exact absurd hpos (Nat.lt_irrefl 0)
  · cases htakes
    exact absurd hpos (Nat.lt_irrefl 0)
  · cases htakes
    exact absurd hpos (Nat.lt_irrefl 0)

/-- `!x` counts as a superset of `p > !x`.  With `x` and `p` at the root and the
    focus below, the second matches and the first does not. -/
theorem isSuperset_unsound :
    ¬ ∀ a b : KeyBindingContextPredicate, a.isSuperset b = true →
      ∀ contexts, b.eval contexts = true → a.eval contexts = true := by
  intro hsound
  have h := hsound (not (identifier ['x']))
    (descendant (identifier ['p']) (not (identifier ['x'])))
    (isSuperset_descendant (by intros; simp) (isSuperset_refl _))
    [⟨[⟨['p'], none⟩, ⟨['x'], none⟩]⟩, ⟨[]⟩] (by decide)
  exact absurd h (by decide)

end KeyBindingContextPredicate

end Gpui
