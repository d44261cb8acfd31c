import Mathlib

/-! # Stripes

    Borders `S 0 ≤ S 1 ≤ …` divide a line into intervals, of which every second one is marked,
    the first one included.

    * `maximal_iff`: below a limit the marked intervals are the greatest intervals of marked
      points, if no interval that starts below the limit is empty.
    * `not_maximal_of_empty`: two marked intervals with an empty one between them are not. -/

namespace Stripes

variable {X : Type u} [LinearOrder X]

/-- A point is in a marked interval. -/
def Marked (S : ℕ → X) (x : X) : Prop :=
  ∃ k, Even k ∧ S k ≤ x ∧ x < S (k + 1)

/-- All points of an interval below a limit are marked. -/
structure MarkedWithin (S : ℕ → X) (limit a b : X) : Prop where
  low    : S 0 ≤ a
  high   : b ≤ limit
  marked : ∀ x, a ≤ x → x < b → Marked S x

/-- Such an interval that is not empty, and not a part of a greater one. -/
structure Maximal (S : ℕ → X) (limit a b : X) : Prop where
  lt       : a < b
  within   : MarkedWithin S limit a b
  greatest : ∀ a' b', a' ≤ a → b ≤ b' → MarkedWithin S limit a' b' → a' = a ∧ b' = b

variable {S : ℕ → X} {limit : X} {k : ℕ}

/-- A point is in one interval only. -/
theorem interval_unique (hmono : Monotone S) {x : X} {j : ℕ} (hj : S j ≤ x) (hj' : x < S (j + 1))
    (hk : S k ≤ x) (hk' : x < S (k + 1)) : j = k := by
  have hjk : j < k + 1 := hmono.reflect_lt (hj.trans_lt hk')
  have hkj : k < j + 1 := hmono.reflect_lt (hk.trans_lt hj')
  omega

/-- The points of the other intervals are not marked. -/
theorem not_marked (hmono : Monotone S) {x : X} (hodd : ¬ Even k) (hk : S k ≤ x)
    (hk' : x < S (k + 1)) : ¬ Marked S x := by
  intro hmarked
  obtain ⟨j, heven, hj, hj'⟩ := hmarked
  rw [interval_unique hmono hj hj' hk hk'] at heven
  exact hodd heven

theorem markedWithin_interval (hmono : Monotone S) (heven : Even k) :
    MarkedWithin S limit (S k) (min (S (k + 1)) limit) where
  low := hmono (Nat.zero_le k)
  high := min_le_right _ _
  marked := fun _ hx hx' => ⟨k, heven, hx, hx'.trans_le (min_le_left _ _)⟩

/-- A marked interval that touches the next one is not maximal. -/
theorem not_maximal_of_empty (heven : Even k) (hempty : S (k + 2) = S (k + 1))
    (hnext : S (k + 2) < min (S (k + 3)) limit) :
    ¬ Maximal S limit (S k) (min (S (k + 1)) limit) := by
  intro h
  have hlimit : S (k + 1) < limit := hempty ▸ hnext.trans_le (min_le_right _ _)
  have hb : min (S (k + 1)) limit = S (k + 1) := min_eq_left hlimit.le
  rw [hb] at h
  have hwithin : MarkedWithin S limit (S k) (min (S (k + 3)) limit) := by
    refine ⟨h.within.low, min_le_right _ _, ?_⟩
    intro x hx hx'
    by_cases hin : x < S (k + 1)
    · exact ⟨k, heven, hx, hin⟩
    · refine ⟨k + 2, ?_, hempty.le.trans (not_lt.mp hin), hx'.trans_le (min_le_left _ _)⟩
      exact heven.add even_two
  have hsame := h.greatest (S k) _ le_rfl (hempty ▸ hnext.le) hwithin
  exact absurd hsame.2 (hempty ▸ hnext.ne')

variable (hmono : Monotone S) (hstrict : ∀ k, S k < limit → S k < S (k + 1))

include hmono hstrict

/-- Marked points before a border of a marked interval are in the interval. -/
theorem le_of_markedWithin {a b : X} (h : MarkedWithin S limit a b) (heven : Even k)
    (ha : a < S (k + 1)) : b ≤ S (k + 1) := by
  by_contra hb
  have hb := not_le.mp hb
  have hlimit : S (k + 1) < limit := hb.trans_le h.high
  -- the next interval is not empty, and is not marked
  have hodd : ¬ Even (k + 1) := by
    rw [Nat.even_add_one]
    exact not_not.mpr heven
  have hmarked := h.marked (S (k + 1)) ha.le hb
  exact not_marked hmono hodd le_rfl (hstrict (k + 1) hlimit) hmarked

theorem ge_of_markedWithin {a b : X} (h : MarkedWithin S limit a b) (heven : Even k)
    (hk : S k < limit) (hb : S k < b) : S k ≤ a := by
  by_contra ha
  have ha := not_le.mp ha
  cases k with
  | zero => exact absurd h.low (not_le.mpr ha)
  | succ j =>
    -- the interval before is not empty, and is not marked
    have hodd : ¬ Even j := by rwa [Nat.even_add_one] at heven
    have hbefore : S j < S (j + 1) :=
      hstrict j ((hmono (Nat.le_succ j)).trans_lt hk)
    have hmarked := h.marked (max a (S j)) (le_max_left _ _) ((max_lt ha hbefore).trans hb)
    exact not_marked hmono hodd (le_max_right _ _) (max_lt ha hbefore) hmarked

/-- The marked intervals below the limit are the maximal ones. -/
theorem maximal_iff {a b : X} :
    Maximal S limit a b ↔
      ∃ k, Even k ∧ S k < limit ∧ a = S k ∧ b = min (S (k + 1)) limit := by
  constructor
  · intro h
    obtain ⟨k, heven, hk, hk'⟩ := h.within.marked a le_rfl h.lt
    have hb := le_of_markedWithin hmono hstrict h.within heven hk'
    have hgreatest := h.greatest (S k) (min (S (k + 1)) limit) hk (le_min hb h.within.high)
      (markedWithin_interval hmono heven)
    exact ⟨k, heven, hk.trans_lt (h.lt.trans_le h.within.high), hgreatest.1.symm,
      hgreatest.2.symm⟩
  · intro h
    obtain ⟨k, heven, hk, rfl, rfl⟩ := h
    have hlt : S k < min (S (k + 1)) limit := lt_min (hstrict k hk) hk
    refine ⟨hlt, markedWithin_interval hmono heven, ?_⟩
    intro a' b' ha' hb' hwithin
    have hstart := ge_of_markedWithin hmono hstrict hwithin heven hk (hlt.trans_le hb')
    have ha : a' = S k := le_antisymm ha' hstart
    have hend := le_of_markedWithin hmono hstrict hwithin heven (ha.symm ▸ hstrict k hk)
    exact ⟨ha, le_antisymm (le_min hend hwithin.high) hb'⟩

end Stripes
