import Mathlib

/-! # Folds of a left-unital operation

    `S` has an operation `add` with a zero that is only known to be a *left*
    unit, and it acts on `D` so that acting twice is acting by the sum.  Then
    the sum of a non-empty block may replace the block in every fold; an empty
    block may not, because adding zero on the right can change the value. -/

namespace Fold

variable {S : Type u} {D : Type v} {add : S → S → S} {zero : S} {act : D → S → D}

/-- Acting by the sum of a non-empty list is acting by its elements in turn. -/
theorem act_foldl_cons (hact : ∀ d s t, act (act d s) t = act d (add s t)) :
    ∀ (xs : List S) (d : D) (x : S),
      act d (xs.foldl add x) = xs.foldl act (act d x)
  | [],      _, _ => rfl
  | y :: ys, d, x => by
      have ih := act_foldl_cons hact ys d (add x y)
      simp only [List.foldl_cons, ih, hact]

theorem act_sum (hzero : ∀ s, add zero s = s) (hact : ∀ d s t, act (act d s) t = act d (add s t))
    {xs : List S} (hne : xs ≠ []) (d : D) :
    act d (xs.foldl add zero) = xs.foldl act d := by
  cases xs with
  | nil => exact absurd rfl hne
  | cons x xs =>
    simp only [List.foldl_cons, hzero]
    exact act_foldl_cons hact xs d x

/-- **Block rule**: a fold over the sums of non-empty blocks is the fold over
    the blocks' elements. -/
theorem foldl_sum_blocks (hzero : ∀ s, add zero s = s)
    (hact : ∀ d s t, act (act d s) t = act d (add s t)) :
    ∀ (bs : List (List S)) (d : D), (∀ b ∈ bs, b ≠ []) →
      (bs.map (fun b => b.foldl add zero)).foldl act d = bs.flatten.foldl act d
  | [],      _, _  => rfl
  | b :: bs, d, hb => by
      have hne : b ≠ [] := hb b (by simp)
      have ih := foldl_sum_blocks hzero hact bs (b.foldl act d)
        (fun c hc => hb c (by simp [hc]))
      simp only [List.map_cons, List.foldl_cons, List.flatten_cons, List.foldl_append,
        act_sum hzero hact hne, ih]

end Fold
