import Mathlib

/-! # Stable sorting by a key

    A stable sort orders by the key and, where keys are equal, by the place before.  What
    stands before what in a list is told by its sublists of two elements. -/

namespace StableSort

open List

variable {α : Type u} {R : α → α → Prop}

/-- `a` stands before `b`. -/
def Before (l : List α) (a b : α) : Prop := [a, b].Sublist l

variable {l : List α} {a b : α} {key : α → Nat}

theorem Before.mem (h : Before l a b) : a ∈ l ∧ b ∈ l :=
  ⟨h.subset (by simp), h.subset (by simp)⟩

/-- Of two elements, one stands before the other. -/
theorem before_or (ha : a ∈ l) (hb : b ∈ l) (hne : a ≠ b) :
    Before l a b ∨ Before l b a := by
  induction l with
  | nil => cases ha
  | cons x l ih =>
    cases mem_cons.1 ha with
    | inl hax =>
      cases mem_cons.1 hb with
      | inl hbx => exact absurd (hax.trans hbx.symm) hne
      | inr hbl =>
        left
        rw [hax]
        exact (singleton_sublist.2 hbl).cons_cons x
    | inr hal =>
      cases mem_cons.1 hb with
      | inl hbx =>
        right
        rw [hbx]
        exact (singleton_sublist.2 hal).cons_cons x
      | inr hbl =>
        cases ih hal hbl with
        | inl h => exact .inl (h.cons x)
        | inr h => exact .inr (h.cons x)

/-- In a list ordered by an asymmetric relation, the relation says what stands before
    what. -/
theorem before_iff (h : l.Pairwise R) (hasymm : ∀ a b, R a b → ¬ R b a)
    (ha : a ∈ l) (hb : b ∈ l) : Before l a b ↔ R a b := by
  constructor
  · intro hbefore
    exact pairwise_iff_forall_sublist.1 h hbefore
  · intro hr
    have hne : a ≠ b := by
      rintro rfl
      exact hasymm a a hr hr
    cases before_or ha hb hne with
    | inl hbefore => exact hbefore
    | inr hbefore => exact absurd (pairwise_iff_forall_sublist.1 h hbefore) (hasymm a b hr)

/-! ### Sorting -/

/-- A stable sort by a key. -/
def sortByKey (key : α → Nat) (l : List α) : List α :=
  l.insertionSort (fun a b => key a ≤ key b)

theorem sortByKey_perm (key : α → Nat) (l : List α) : (sortByKey key l).Perm l :=
  perm_insertionSort _ l

@[simp] theorem mem_sortByKey :
    a ∈ sortByKey key l ↔ a ∈ l :=
  (sortByKey_perm key l).mem_iff

/-- The key first, and `R` among elements with the same key. -/
def ByKey (key : α → Nat) (R : α → α → Prop) (a b : α) : Prop :=
  key a < key b ∨ (key a = key b ∧ R a b)

theorem ByKey.asymm (hasymm : ∀ a b, R a b → ¬ R b a) (a b : α)
    (h : ByKey key R a b) : ¬ ByKey key R b a := by
  unfold ByKey at h ⊢
  rintro (hlt | ⟨heq, hr⟩)
  · omega
  · obtain hlt | ⟨_, hr'⟩ := h
    · omega
    · exact hasymm a b hr' hr

/-- An element that stood before all others is inserted into a sorted list. -/
theorem pairwise_orderedInsert {x : α} (h : l.Pairwise (ByKey key R)) (hx : ∀ b ∈ l, R x b) :
    (l.orderedInsert (fun a b => key a ≤ key b) x).Pairwise (ByKey key R) := by
  induction l with
  | nil => exact pairwise_singleton _ _
  | cons b l ih =>
    obtain ⟨hb, hl⟩ := pairwise_cons.1 h
    rw [orderedInsert_cons]
    split
    · rename_i hle
      refine pairwise_cons.2 ⟨?_, h⟩
      intro c hc
      have hkey : key x ≤ key c := by
        obtain rfl | hc := mem_cons.1 hc
        · exact hle
        · obtain hlt | ⟨heq, _⟩ := hb c hc
          · omega
          · omega
      cases Nat.lt_or_eq_of_le hkey with
      | inl hlt => exact .inl hlt
      | inr heq => exact .inr ⟨heq, hx c hc⟩
    · rename_i hgt
      refine pairwise_cons.2 ⟨?_, ih hl (fun c hc => hx c (mem_cons_of_mem _ hc))⟩
      intro c hc
      rw [mem_orderedInsert] at hc
      obtain rfl | hc := hc
      · exact .inl (by omega)
      · exact hb c hc

/-- A stable sort keeps the order among elements with the same key. -/
theorem pairwise_sortByKey (h : l.Pairwise R) :
    (sortByKey key l).Pairwise (ByKey key R) := by
  induction l with
  | nil => exact List.Pairwise.nil
  | cons x l ih =>
    obtain ⟨hx, hl⟩ := pairwise_cons.1 h
    apply pairwise_orderedInsert (ih hl)
    intro b hb
    exact hx b ((mem_insertionSort _).1 hb)

end StableSort
