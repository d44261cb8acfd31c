import Mathlib

/-! # The greatest elements

    Of the elements that were recorded and whose measure reaches a threshold, those with the
    greatest measures are kept, a number of them at most.

    * **`Greatest.skip_iff`**, **`Greatest.replace_iff`**: when it is right to leave a new element
      out, and when to keep it instead of an old one. -/

variable {α : Type u} {n threshold : ℕ} {measure : α → ℕ} {recorded kept others : List α} {x old : α}

/-- The kept elements are as many as there may be, or all, and no other one is greater. -/
def Greatest (n threshold : ℕ) (measure : α → ℕ) (recorded kept : List α) : Prop :=
  ∃ rest, (kept ++ rest).Perm (recorded.filter (fun x => threshold ≤ measure x)) ∧
    kept.length ≤ n ∧ (kept.length < n → rest = []) ∧
      ∀ x ∈ kept, ∀ y ∈ rest, measure y ≤ measure x

namespace Greatest

open List

theorem nil : Greatest n threshold measure [] [] :=
  ⟨[], List.Perm.refl _, Nat.zero_le n, fun _ => rfl, fun _ hx => absurd hx not_mem_nil⟩

section

variable (h : Greatest n threshold measure recorded kept)
include h

theorem perm {kept' : List α} (hperm : kept'.Perm kept) :
    Greatest n threshold measure recorded kept' := by
  obtain ⟨rest, hrest, hle, hall, hgreater⟩ := h
  refine ⟨rest, (hperm.append_right rest).trans hrest, ?_, ?_, ?_⟩
  · rw [hperm.length_eq]
    exact hle
  · rw [hperm.length_eq]
    exact hall
  · intro x hx
    exact hgreater x (hperm.mem_iff.mp hx)

theorem reaches (hx : x ∈ kept) : threshold ≤ measure x := by
  obtain ⟨rest, hrest, _⟩ := h
  have hmem := hrest.mem_iff.mp (mem_append_left rest hx)
  exact of_decide_eq_true (mem_filter.mp hmem).2

theorem skip_short (hx : measure x < threshold) :
    Greatest n threshold measure (x :: recorded) kept := by
  obtain ⟨rest, hrest, hkept⟩ := h
  refine ⟨rest, ?_, hkept⟩
  rw [filter_cons_of_neg (by simpa using hx)]
  exact hrest

end

theorem filter_cons (hx : threshold ≤ measure x) :
    (x :: recorded).filter (fun y => threshold ≤ measure y) =
      x :: recorded.filter (fun y => threshold ≤ measure y) :=
  filter_cons_of_pos (by simpa using hx)

theorem add (h : Greatest n threshold measure recorded kept) (hplace : kept.length < n)
    (hx : threshold ≤ measure x) : Greatest n threshold measure (x :: recorded) (x :: kept) := by
  obtain ⟨rest, hrest, _, hall, _⟩ := h
  rw [hall hplace, append_nil] at hrest
  refine ⟨[], ?_, hplace, fun _ => rfl, fun y _ z hz => absurd hz not_mem_nil⟩
  rw [append_nil, filter_cons hx]
  exact hrest.cons x

/-- A new element is left out for the greater ones. -/
theorem skip_iff (h : Greatest n threshold measure recorded kept) (hx : threshold ≤ measure x) :
    Greatest n threshold measure (x :: recorded) kept ↔
      kept.length = n ∧ ∀ y ∈ kept, measure x ≤ measure y := by
  obtain ⟨rest, hrest, hle, _, hgreater⟩ := h
  constructor
  · intro h'
    obtain ⟨rest', hrest', _, hall', hgreater'⟩ := h'
    rw [filter_cons hx] at hrest'
    -- the new element is among the others
    have hperm : (kept ++ rest').Perm (kept ++ x :: rest) :=
      hrest'.trans ((hrest.symm.cons x).trans perm_middle.symm)
    have hmem : x ∈ rest' :=
      ((perm_append_left_iff kept).mp hperm).mem_iff.mpr mem_cons_self
    refine ⟨?_, fun y hy => hgreater' y hy x hmem⟩
    by_contra hne
    rw [hall' (by omega)] at hmem
    cases hmem
  · intro h'
    obtain ⟨hlen, hleast⟩ := h'
    refine ⟨x :: rest, ?_, hle, ?_, ?_⟩
    · rw [filter_cons hx]
      exact perm_middle.trans (hrest.cons x)
    · intro hlt
      omega
    · intro y hy z hz
      obtain rfl | hz := mem_cons.mp hz
      · exact hleast y hy
      · exact hgreater y hy z hz

/-- A new element is kept in place of the least one. -/
theorem replace_iff (h : Greatest n threshold measure recorded (old :: others))
    (hx : threshold ≤ measure x) (hlen : (old :: others).length = n) :
    Greatest n threshold measure (x :: recorded) (x :: others) ↔
      measure old ≤ measure x ∧ ∀ y ∈ others, measure old ≤ measure y := by
  obtain ⟨rest, hrest, hle, _, hgreater⟩ := h
  constructor
  · intro h'
    obtain ⟨rest', hrest', _, _, hgreater'⟩ := h'
    rw [filter_cons hx, cons_append, perm_cons] at hrest'
    -- the old element is among the others
    have hperm : (others ++ rest').Perm (others ++ old :: rest) :=
      hrest'.trans (hrest.symm.trans perm_middle.symm)
    have hmem : old ∈ rest' :=
      ((perm_append_left_iff others).mp hperm).mem_iff.mpr mem_cons_self
    exact ⟨hgreater' x mem_cons_self old hmem,
      fun y hy => hgreater' y (mem_cons_of_mem x hy) old hmem⟩
  · intro h'
    obtain ⟨hold, hleast⟩ := h'
    refine ⟨old :: rest, ?_, hle, ?_, ?_⟩
    · rw [filter_cons hx, cons_append]
      exact (perm_middle.trans hrest).cons x
    · intro hlt
      rw [length_cons] at hlt hlen
      omega
    · have hkept : ∀ y ∈ x :: others, measure old ≤ measure y := by
        intro y hy
        obtain rfl | hy := mem_cons.mp hy
        · exact hold
        · exact hleast y hy
      intro y hy z hz
      obtain rfl | hz := mem_cons.mp hz
      · exact hkept y hy
      · exact (hgreater old mem_cons_self z hz).trans (hkept y hy)

end Greatest
