import Mathlib

/-! # The partition point of a list

    Where the elements that meet a condition come before all others, the partition point is
    the number of them, and halving finds it. -/

namespace PartitionPoint

open List

variable {α : Type u} (p : α → Bool) (l : List α)

/-- The search among the `size` places from `base` on.  The first argument bounds the rounds. -/
def search : Nat → Nat → Nat → Nat
  | 0,         base, _ => base
  | bound + 1, base, size =>
      if size = 0 then base
      else
        let half := size / 2
        if (l[base + half]?).any p then search bound (base + half + 1) (size - half - 1)
        else search bound base half

def partitionPoint : Nat := search p l l.length 0 l.length

variable {p l} {R : α → α → Prop}

theorem search_eq {front back : List α} (hl : l = front ++ back)
    (hfront : ∀ x ∈ front, p x = true) (hback : ∀ x ∈ back, p x = false) (bound base size : Nat)
    (hsize : size ≤ bound) (hbase : base ≤ front.length) (hend : front.length ≤ base + size)
    (hin : base + size ≤ l.length) : search p l bound base size = front.length := by
  induction bound generalizing base size with
  | zero =>
    unfold search
    omega
  | succ bound ih =>
    unfold search
    by_cases hzero : size = 0
    · rw [if_pos hzero]
      omega
    · have hhalf : size / 2 < size := Nat.div_lt_self (by omega) (by omega)
      have hmid : base + size / 2 < l.length := by omega
      rw [if_neg hzero]
      dsimp only
      rw [getElem?_eq_getElem hmid, Option.any_some]
      by_cases hlt : base + size / 2 < front.length
      · -- the place is in the first part
        have hmem : p l[base + size / 2] = true := by
          apply hfront
          simp only [hl, getElem_append_left hlt, getElem_mem]
        rw [if_pos hmem]
        exact ih _ _ (by omega) (by omega) (by omega) (by omega)
      · have hmem : p l[base + size / 2] = false := by
          apply hback
          simp only [hl, getElem_append_right (by omega : front.length ≤ base + size / 2),
            getElem_mem]
        rw [if_neg (by simp [hmem])]
        exact ih _ _ (by omega) hbase (by omega) (by omega)

theorem partitionPoint_append {front back : List α} (hfront : ∀ x ∈ front, p x = true)
    (hback : ∀ x ∈ back, p x = false) : partitionPoint p (front ++ back) = front.length := by
  have hlength : (front ++ back).length = front.length + back.length := length_append
  exact search_eq rfl hfront hback _ _ _ le_rfl (by omega) (by omega) (by omega)

section

variable (hR : ∀ a b, R a b → p b = true → p a = true) (h : l.Pairwise R)
include hR h

/-- In a list that is ordered such that the condition, where it holds, holds before, the
    partition point is the length of the first elements that meet it. -/
theorem partitionPoint_eq : partitionPoint p l = (l.takeWhile p).length := by
  have hback : ∀ x ∈ l.dropWhile p, p x = false := by
    induction l with
    | nil => simp
    | cons x rest ih =>
      obtain ⟨hx, hrest⟩ := pairwise_cons.1 h
      cases hp : p x with
      | true => simpa [dropWhile_cons, hp] using ih hrest
      | false =>
        intro y hy
        simp only [dropWhile_cons, hp, Bool.false_eq_true, if_false, mem_cons] at hy
        rcases hy with rfl | hy
        · exact hp
        · exact Bool.eq_false_iff.2 fun hpy => by simp [hR x y (hx y hy) hpy] at hp
  have hfront : ∀ x ∈ l.takeWhile p, p x = true := fun x hx => mem_takeWhile_imp hx
  have hsplit := partitionPoint_append hfront hback
  rwa [takeWhile_append_dropWhile] at hsplit

theorem take_partitionPoint : l.take (partitionPoint p l) = l.takeWhile p := by
  rw [partitionPoint_eq hR h]
  nth_rewrite 2 [← takeWhile_append_dropWhile (p := p) (l := l)]
  exact take_left' rfl

theorem drop_partitionPoint : l.drop (partitionPoint p l) = l.dropWhile p := by
  rw [partitionPoint_eq hR h]
  nth_rewrite 2 [← takeWhile_append_dropWhile (p := p) (l := l)]
  exact drop_left' rfl

end

end PartitionPoint
