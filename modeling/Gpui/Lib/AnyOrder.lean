import Mathlib

/-! # Lists in any order

    What is made of a list may be the same in whatever order the list stands.

    * **`independent_map_iff`**: for a mapped list, that is a fact about what it is mapped to.
    * **`independent_last_iff`**: the last of several values does not depend on the order iff
      they are the same. -/

namespace AnyOrder

variable {α : Type u} {β : Type v} {γ : Type w}

def Independent (f : List α → β) (l : List α) : Prop :=
  ∀ l', l'.Perm l → f l' = f l

/-- What a mapped list is permuted to comes from a permutation of the list. -/
theorem exists_perm_map {g : α → γ} {l : List α} {l' : List γ} (h : l'.Perm (l.map g)) :
    ∃ k : List α, k.Perm l ∧ k.map g = l' := by
  induction l generalizing l' with
  | nil => exact ⟨[], List.Perm.refl _, h.symm.nil_eq⟩
  | cons a l ih =>
    obtain ⟨front, back, rfl⟩ := List.append_of_mem (h.mem_iff.mpr List.mem_cons_self)
    obtain ⟨k, hk, hmap⟩ := ih (List.perm_middle.symm.trans h).cons_inv
    obtain ⟨front', back', rfl, rfl, rfl⟩ := List.map_eq_append_iff.mp hmap
    exact ⟨front' ++ a :: back', List.perm_middle.trans (hk.cons a), by simp⟩

theorem independent_map_iff {f : List γ → β} {g : α → γ} {l : List α} :
    Independent (fun l => f (l.map g)) l ↔ Independent f (l.map g) := by
  constructor
  · intro h l' hperm
    obtain ⟨k, hk, rfl⟩ := exists_perm_map hperm
    exact h k hk
  · intro h k hk
    exact h _ (hk.map g)

/-! ## The last value -/

/-- The last value that there is. -/
def last (l : List (Option α)) : Option α :=
  l.foldl (fun acc x => x.or acc) none

theorem last_append (l : List (Option α)) (x : Option α) : last (l ++ [x]) = x.or (last l) := by
  rw [last, List.foldl_append]
  rfl

variable {l : List (Option α)}

theorem mem_of_last_eq_some {a : α} (h : last l = some a) : some a ∈ l := by
  induction l using List.reverseRecOn with
  | nil => simp [last] at h
  | append_singleton l x ih =>
    rw [last_append] at h
    cases x with
    | none => exact List.mem_append_left _ (ih h)
    | some b =>
      obtain rfl : b = a := by simpa using h
      simp

theorem last_ne_none {a : α} (h : some a ∈ l) : last l ≠ none := by
  induction l using List.reverseRecOn with
  | nil => simp at h
  | append_singleton l x ih =>
    rw [last_append]
    cases x with
    | none =>
      have hmem : some a ∈ l := by simpa using h
      simpa using ih hmem
    | some b => simp

theorem independent_last_iff : Independent last l ↔ ∀ a b, some a ∈ l → some b ∈ l → a = b := by
  constructor
  · intro h
    -- any of the values can be put last
    have hlast : ∀ a, some a ∈ l → last l = some a := by
      intro a ha
      obtain ⟨front, back, rfl⟩ := List.append_of_mem ha
      have hperm : (front ++ back ++ [some a]).Perm (front ++ some a :: back) :=
        (List.perm_append_singleton _ _).trans List.perm_middle.symm
      rw [← h _ hperm, last_append]
      rfl
    intro a b ha hb
    exact Option.some.inj ((hlast a ha).symm.trans (hlast b hb))
  · intro h l' hperm
    cases hlast : last l with
    | none =>
      by_contra hne
      obtain ⟨a, ha⟩ := Option.ne_none_iff_exists'.mp hne
      exact last_ne_none (hperm.mem_iff.mp (mem_of_last_eq_some ha)) hlast
    | some a =>
      have hmem := mem_of_last_eq_some hlast
      obtain ⟨b, hb⟩ := Option.ne_none_iff_exists'.mp (last_ne_none (hperm.mem_iff.mpr hmem))
      rw [hb, h b a (hperm.mem_iff.mp (mem_of_last_eq_some hb)) hmem]

end AnyOrder
