import Mathlib

/-! # Cutting a list into blocks

    `chunks n l` are the consecutive blocks of `n` elements of `l`, the last one
    possibly shorter. -/

namespace Chunks

open List

variable {α : Type u} {β : Type v}

def chunks (n : Nat) (l : List α) : List (List α) :=
  if _h : l = [] ∨ n = 0 then [] else l.take n :: chunks n (l.drop n)
termination_by l.length
decreasing_by
  have := List.length_pos_of_ne_nil (not_or.mp _h).1
  simp only [List.length_drop]
  omega

@[simp] theorem chunks_nil (n : Nat) : chunks n ([] : List α) = [] := by
  rw [chunks, dif_pos (Or.inl rfl)]

variable {n : Nat} {l : List α}

theorem chunks_of_ne_nil (hn : 0 < n) (hl : l ≠ []) :
    chunks n l = l.take n :: chunks n (l.drop n) := by
  rw [chunks, dif_neg (by simp [hl]; omega)]

/-- A list that fits into one block is its only block. -/
theorem chunks_of_length_le (hl : l ≠ []) (hle : l.length ≤ n) :
    chunks n l = [l] := by
  have hpos := length_pos_of_ne_nil hl
  rw [chunks_of_ne_nil (by omega) hl, take_of_length_le hle, drop_of_length_le hle,
    chunks_nil]

/-- A full block in front of a list is its first block. -/
theorem chunks_append (hn : 0 < n) {b : List α} (hb : b.length = n) :
    chunks n (b ++ l) = b :: chunks n l := by
  have hne : b ++ l ≠ [] := by
    intro h
    obtain ⟨rfl, _⟩ := append_eq_nil_iff.mp h
    exact absurd hb (by simp; omega)
  rw [chunks_of_ne_nil hn hne, ← hb, take_left, drop_left]

/-- **Induction along the blocks.** -/
theorem chunks_induction (hn : 0 < n) {P : List α → Prop} (nil : P [])
    (cons : ∀ l, l ≠ [] → P (l.drop n) → P l) : ∀ l, P l := by
  intro l
  induction hk : l.length using Nat.strongRecOn generalizing l with
  | ind k ih =>
    by_cases hl : l = []
    · rw [hl]; exact nil
    · have hpos := length_pos_of_ne_nil hl
      refine cons l hl (ih (l.drop n).length ?_ _ rfl)
      rw [length_drop]
      omega

theorem flatten_chunks (hn : 0 < n) (l : List α) : (chunks n l).flatten = l := by
  induction l using chunks_induction hn with
  | nil => simp
  | cons l hl ih => rw [chunks_of_ne_nil hn hl, flatten_cons, ih, take_append_drop]

theorem mem_chunks (hn : 0 < n) (l : List α) :
    ∀ b ∈ chunks n l, b ≠ [] ∧ b.length ≤ n := by
  induction l using chunks_induction hn with
  | nil => simp
  | cons l hl ih =>
    rw [chunks_of_ne_nil hn hl]
    intro b hb
    rcases mem_cons.mp hb with rfl | hb
    · have hpos := length_pos_of_ne_nil hl
      have htake : (l.take n).length = min n l.length := length_take
      exact ⟨ne_nil_of_length_pos (by omega), by omega⟩
    · exact ih b hb

theorem mem_of_mem_chunks (hn : 0 < n) {b : List α} {x : α}
    (hb : b ∈ chunks n l) (hx : x ∈ b) : x ∈ l := by
  rw [← flatten_chunks hn l]
  exact mem_flatten_of_mem hb hx

theorem length_chunks_le (hn : 0 < n) (l : List α) :
    ∀ k, l.length ≤ n * k → (chunks n l).length ≤ k := by
  induction l using chunks_induction hn with
  | nil => simp
  | cons l hl ih =>
    intro k hk
    rw [chunks_of_ne_nil hn hl, length_cons]
    have hpos := length_pos_of_ne_nil hl
    cases k with
    | zero => omega
    | succ k =>
      have := ih k (by rw [length_drop, Nat.mul_succ] at *; omega)
      omega

/-- With blocks of two or more, cutting makes the list shorter. -/
theorem length_chunks_lt (hn : 2 ≤ n) (hl : 2 ≤ l.length) :
    (chunks n l).length < l.length := by
  have h := length_chunks_le (n := n) (by omega) l (l.length - 1) (by
    calc l.length ≤ 2 * (l.length - 1) := by omega
      _ ≤ n * (l.length - 1) := Nat.mul_le_mul_right _ hn)
  omega

end Chunks
