import Gpui.Lib.Stripes

/-! # Dashed strokes

    The lengths of a dash array are drawn and left out by turns along a path.  A loop goes
    along the path from border to border, and the sampler draws a part of the path for every
    second length.

    * **`dashed_iff`**: the loop ends and draws what the pattern marks iff the path is empty, or
      there are lengths and none of them is zero up to the end of the path.  Without lengths
      the loop panics, and with zeros only it does not end.  Otherwise an empty dash is drawn,
      or a dash in two parts. -/

namespace Gpui

open List

namespace Dashes

/-! ### Section 1: The model -/

/-- A part of a path, as fractions of its length. -/
structure Range (X : Type) where
  start : X
  finish : X
deriving DecidableEq, Repr

inductive Panic where
  /-- "attempt to calculate the remainder with a divisor of zero". -/
  | remainderByZero
deriving DecidableEq, Repr

/-- The variables of the loop, and the ranges that the sampler was given. -/
structure State (X : Type) where
  pos : X
  dashIndex : Nat
  ranges : List (Range X)

variable {X : Type} [Field X] [LinearOrder X]

/-- An odd number of lengths is repeated. -/
def dashArray (lengths : List X) : List X :=
  if lengths.length % 2 = 1 then lengths ++ lengths else lengths

def State.new : State X where
  pos := 0
  dashIndex := 0
  ranges := []

/-- The body of the loop. -/
def step (dashArray : List X) (totalLength : X) (s : State X) : Except Panic (State X) :=
  match dashArray[s.dashIndex % dashArray.length]? with
  | none => .error .remainderByZero
  | some dashLength =>
      let nextPos := min (s.pos + dashLength) totalLength
      .ok
        { pos := nextPos
          dashIndex := s.dashIndex + 1
          ranges :=
            if s.dashIndex % 2 = 0 then
              s.ranges ++ [⟨s.pos / totalLength, nextPos / totalLength⟩]
            else s.ranges }

/-- The loop, for a number of rounds. -/
def loop (dashArray : List X) (totalLength : X) : Nat → State X → Option (Except Panic (State X))
  | 0, _ => none
  | fuel + 1, s =>
      if s.pos < totalLength then
        match step dashArray totalLength s with
        | .ok s    => loop dashArray totalLength fuel s
        | .error e => some (.error e)
      else some (.ok s)

/-! ### Section 2: The pattern -/

/-- The lengths again and again. -/
def pattern (lengths : List X) (k : ℕ) : X :=
  (lengths[k % lengths.length]?).getD 0

/-- Where a length of the pattern begins. -/
def border (lengths : List X) (k : ℕ) : X :=
  ∑ i ∈ Finset.range k, pattern lengths i

/-- What the sampler draws for a range. -/
def Range.along (totalLength : X) (r : Range X) : Range X where
  start := r.start * totalLength
  finish := r.finish * totalLength

/-- The greatest intervals of the path that the pattern marks, in order. -/
structure Follows (lengths : List X) (totalLength : X) (ranges : List (Range X)) : Prop where
  exactly : ∀ r, r ∈ ranges.map (Range.along totalLength) ↔
    Stripes.Maximal (border lengths) totalLength r.start r.finish
  ordered : (ranges.map (Range.along totalLength)).Pairwise (fun r r' => r.finish ≤ r'.start)

/-- The loop ends, and has followed the pattern. -/
def Dashed (lengths : List X) (totalLength : X) : Prop :=
  ∃ fuel s, loop (dashArray lengths) totalLength fuel .new = some (.ok s) ∧
    Follows lengths totalLength s.ranges

/-! ### Section 3: Borders -/

variable {lengths : List X} {totalLength : X} {k K : ℕ}

section

omit [LinearOrder X]

theorem border_succ (lengths : List X) (k : ℕ) :
    border lengths (k + 1) = border lengths k + pattern lengths k :=
  Finset.sum_range_succ _ k

theorem border_zero (lengths : List X) : border lengths 0 = 0 :=
  Finset.sum_range_zero _

theorem pattern_of_lt (h : k < lengths.length) : pattern lengths k = lengths[k] := by
  rw [pattern, Nat.mod_eq_of_lt h, getElem?_eq_getElem h, Option.getD_some]

theorem pattern_mem (h : lengths ≠ []) (k : ℕ) : pattern lengths k ∈ lengths := by
  have hlt : k % lengths.length < lengths.length :=
    Nat.mod_lt _ (length_pos_iff.mpr h)
  rw [pattern, getElem?_eq_getElem hlt]
  exact getElem_mem hlt

/-- Repeating the lengths does not change the pattern. -/
theorem dashArray_getElem? (h : lengths ≠ []) (k : ℕ) :
    (dashArray lengths)[k % (dashArray lengths).length]? = some (pattern lengths k) := by
  have hpos : 0 < lengths.length := length_pos_iff.mpr h
  have hlt : k % lengths.length < lengths.length := Nat.mod_lt _ hpos
  have hsome : lengths[k % lengths.length]? = some (pattern lengths k) := by
    rw [pattern, getElem?_eq_getElem hlt, Option.getD_some]
  unfold dashArray
  split
  · rw [length_append]
    -- the index is one of the first lengths or of the second ones
    have hmod : k % (lengths.length + lengths.length) % lengths.length = k % lengths.length :=
      Nat.mod_mod_of_dvd k ⟨2, by omega⟩
    have hbound : k % (lengths.length + lengths.length) < lengths.length + lengths.length :=
      Nat.mod_lt _ (by omega)
    by_cases hfirst : k % (lengths.length + lengths.length) < lengths.length
    · rw [getElem?_append_left hfirst, ← hsome, ← hmod, Nat.mod_eq_of_lt hfirst]
    · have hsecond := not_lt.mp hfirst
      rw [getElem?_append_right hsecond, ← hsome, ← hmod, Nat.mod_eq_sub_mod hsecond,
        Nat.mod_eq_of_lt (show k % (lengths.length + lengths.length) - lengths.length <
          lengths.length by omega)]
  · exact hsome

theorem border_eq_sum_take (h : k ≤ lengths.length) : border lengths k = (lengths.take k).sum := by
  induction k with
  | zero => rw [border_zero, take_zero, sum_nil]
  | succ k ih =>
    have hlt : k < lengths.length := h
    rw [border_succ, ih hlt.le, take_add_one, getElem?_eq_getElem hlt, sum_append,
      pattern_of_lt hlt]
    simp

/-- After all lengths the pattern begins again. -/
theorem border_mul (lengths : List X) (m : ℕ) :
    border lengths (m * lengths.length) = m • border lengths lengths.length := by
  induction m with
  | zero => rw [zero_mul, border_zero, zero_smul]
  | succ m ih =>
    have hperiod : ∀ i, pattern lengths (m * lengths.length + i) = pattern lengths i := by
      intro i
      rw [pattern, Nat.mul_add_mod']
      rfl
    rw [add_mul, one_mul, border, Finset.sum_range_add, succ_nsmul]
    simp only [hperiod]
    exact congrArg (· + _) ih

end

section Ordered

variable [IsStrictOrderedRing X] (hnonneg : ∀ d ∈ lengths, 0 ≤ d)

include hnonneg

theorem border_mono : Monotone (border lengths) := by
  apply monotone_nat_of_le_succ
  intro k
  rw [border_succ]
  by_cases h : lengths = []
  · subst h
    simp [pattern]
  · exact le_add_of_nonneg_right (hnonneg _ (pattern_mem h k))

/-- Zeros among the lengths matter only before the end of the path. -/
theorem border_strict (hlengths : lengths ≠ [])
    (hzero : ∀ j, lengths[j]? = some 0 → totalLength ≤ (lengths.take j).sum) (k : ℕ)
    (hk : border lengths k < totalLength) : border lengths k < border lengths (k + 1) := by
  rw [border_succ]
  apply lt_add_of_pos_right
  refine lt_of_le_of_ne (hnonneg _ (pattern_mem hlengths k)) ?_
  intro hpattern
  -- the zero comes in the first repetition as well
  have hlt : k % lengths.length < lengths.length :=
    Nat.mod_lt _ (length_pos_iff.mpr hlengths)
  have hfirst : lengths[k % lengths.length]? = some 0 := by
    rw [getElem?_eq_getElem hlt, hpattern, pattern, getElem?_eq_getElem hlt,
      Option.getD_some]
  have hbefore := hzero _ hfirst
  rw [← border_eq_sum_take hlt.le] at hbefore
  have hle := border_mono hnonneg (Nat.mod_le k lengths.length)
  exact absurd hk (not_lt.mpr (hbefore.trans hle))

/-- The pattern comes to the end of the path. -/
theorem exists_border_ge [Archimedean X] (hlengths : lengths ≠ []) (htotal : 0 < totalLength)
    (hstrict : ∀ k, border lengths k < totalLength → border lengths k < border lengths (k + 1)) :
    ∃ K, totalLength ≤ border lengths K := by
  have hfirst : 0 < border lengths 1 := by
    have hlt := hstrict 0 (by rwa [border_zero])
    rwa [border_zero] at hlt
  have hround : 0 < border lengths lengths.length :=
    hfirst.trans_le (border_mono hnonneg (length_pos_iff.mpr hlengths))
  obtain ⟨m, hm⟩ := Archimedean.arch totalLength hround
  exact ⟨m * lengths.length, hm.trans_eq (border_mul lengths m).symm⟩

end Ordered

/-! ### Section 4: The loop -/

/-- The ranges of the first rounds. -/
def rangesUpTo (lengths : List X) (totalLength : X) (k : ℕ) : List (Range X) :=
  ((List.range k).filter (· % 2 = 0)).map (fun i =>
    ⟨border lengths i / totalLength, min (border lengths (i + 1)) totalLength / totalLength⟩)

/-- The variables after some rounds. -/
def stateAt (lengths : List X) (totalLength : X) (k : ℕ) : State X where
  pos := min (border lengths k) totalLength
  dashIndex := k
  ranges := rangesUpTo lengths totalLength k

theorem rangesUpTo_succ (lengths : List X) (totalLength : X) (k : ℕ) :
    rangesUpTo lengths totalLength (k + 1) =
      if k % 2 = 0 then
        rangesUpTo lengths totalLength k ++
          [⟨border lengths k / totalLength,
            min (border lengths (k + 1)) totalLength / totalLength⟩]
      else rangesUpTo lengths totalLength k := by
  unfold rangesUpTo
  rw [range_succ, filter_append, map_append]
  by_cases heven : k % 2 = 0
  · rw [if_pos heven, filter_singleton]
    simp [heven]
  · rw [if_neg heven, filter_singleton]
    simp [heven]

theorem stateAt_pos_lt (k : ℕ) :
    (stateAt lengths totalLength k).pos < totalLength ↔ border lengths k < totalLength := by
  simp [stateAt]

/-- One round. -/
theorem step_stateAt [IsStrictOrderedRing X] (hlengths : lengths ≠ [])
    (hk : border lengths k < totalLength) :
    step (dashArray lengths) totalLength (stateAt lengths totalLength k) =
      .ok (stateAt lengths totalLength (k + 1)) := by
  have hpos : (stateAt lengths totalLength k).pos = border lengths k := min_eq_left hk.le
  have hindex : (stateAt lengths totalLength k).dashIndex = k := rfl
  unfold step
  rw [hindex, dashArray_getElem? hlengths, hpos]
  dsimp only
  rw [← border_succ]
  unfold stateAt
  rw [rangesUpTo_succ]

/-- The loop ends after the round that comes to the end of the path. -/
theorem loop_stateAt [IsStrictOrderedRing X] (hlengths : lengths ≠ [])
    (hbefore : ∀ k < K, border lengths k < totalLength) (hend : totalLength ≤ border lengths K)
    (fuel : ℕ) (hk : k + fuel = K) :
    loop (dashArray lengths) totalLength (fuel + 1) (stateAt lengths totalLength k) =
      some (.ok (stateAt lengths totalLength K)) := by
  induction fuel generalizing k with
  | zero =>
    obtain rfl : k = K := hk
    unfold loop
    rw [if_neg]
    rw [stateAt_pos_lt]
    exact not_lt.mpr hend
  | succ fuel ih =>
    have hlt := hbefore k (by omega)
    unfold loop
    rw [if_pos ((stateAt_pos_lt k).mpr hlt), step_stateAt hlengths hlt]
    exact ih (by omega)

/-- A loop that ended came to the end of the path. -/
theorem of_loop_stateAt [IsStrictOrderedRing X] (hlengths : lengths ≠ []) {fuel : ℕ} {s : State X}
    (hbefore : ∀ i < k, border lengths i < totalLength)
    (hloop : loop (dashArray lengths) totalLength fuel (stateAt lengths totalLength k) =
      some (.ok s)) :
    ∃ K, s = stateAt lengths totalLength K ∧ (∀ i < K, border lengths i < totalLength) ∧
      totalLength ≤ border lengths K := by
  induction fuel generalizing k with
  | zero => cases hloop
  | succ fuel ih =>
    unfold loop at hloop
    by_cases hlt : border lengths k < totalLength
    · rw [if_pos ((stateAt_pos_lt k).mpr hlt), step_stateAt hlengths hlt] at hloop
      refine ih ?_ hloop
      intro i hi
      obtain hi | rfl := Nat.lt_succ_iff_lt_or_eq.mp hi
      · exact hbefore i hi
      · exact hlt
    · rw [if_neg (fun h => hlt ((stateAt_pos_lt k).mp h))] at hloop
      cases hloop
      exact ⟨k, rfl, hbefore, not_lt.mp hlt⟩

/-- What is drawn, for a path that is not empty. -/
theorem map_rangesUpTo (htotal : totalLength ≠ 0) (K : ℕ) :
    (rangesUpTo lengths totalLength K).map (Range.along totalLength) =
      ((List.range K).filter (· % 2 = 0)).map (fun i =>
        ⟨border lengths i, min (border lengths (i + 1)) totalLength⟩) := by
  unfold rangesUpTo
  rw [map_map]
  apply map_congr_left
  intro i _
  simp only [Function.comp_apply, Range.along, div_mul_cancel₀ _ htotal]

theorem mem_map_rangesUpTo (htotal : totalLength ≠ 0) {r : Range X} :
    r ∈ (rangesUpTo lengths totalLength K).map (Range.along totalLength) ↔
      ∃ i < K, Even i ∧
        r = ⟨border lengths i, min (border lengths (i + 1)) totalLength⟩ := by
  rw [map_rangesUpTo htotal]
  simp only [mem_map, mem_filter, mem_range, decide_eq_true_eq, Nat.even_iff]
  constructor
  · intro h
    obtain ⟨i, ⟨hi, heven⟩, rfl⟩ := h
    exact ⟨i, hi, heven, rfl⟩
  · intro h
    obtain ⟨i, hi, heven, rfl⟩ := h
    exact ⟨i, ⟨hi, heven⟩, rfl⟩

/-! ### Section 5: The result -/

section Result

variable [IsStrictOrderedRing X] (hnonneg : ∀ d ∈ lengths, 0 ≤ d)

include hnonneg

theorem follows_stateAt (htotal : 0 < totalLength)
    (hstrict : ∀ k, border lengths k < totalLength → border lengths k < border lengths (k + 1))
    (hbefore : ∀ k < K, border lengths k < totalLength) (hend : totalLength ≤ border lengths K) :
    Follows lengths totalLength (stateAt lengths totalLength K).ranges := by
  have hmono := border_mono hnonneg
  constructor
  · intro r
    show r ∈ (rangesUpTo lengths totalLength K).map _ ↔ _
    rw [mem_map_rangesUpTo htotal.ne', Stripes.maximal_iff hmono hstrict]
    constructor
    · intro h
      obtain ⟨i, hi, heven, rfl⟩ := h
      exact ⟨i, heven, hbefore i hi, rfl, rfl⟩
    · intro h
      obtain ⟨i, heven, hi, hstart, hfinish⟩ := h
      refine ⟨i, hmono.reflect_lt (hi.trans_le hend), heven, ?_⟩
      rw [← hstart, ← hfinish]
  · show ((rangesUpTo lengths totalLength K).map _).Pairwise _
    rw [map_rangesUpTo htotal.ne', pairwise_map]
    apply List.Pairwise.filter
    apply pairwise_lt_range.imp
    intro i j hij
    exact (min_le_left _ _).trans (hmono hij)

/-- A zero before the end of the path is an empty dash, or parts a dash. -/
theorem not_follows_of_zero (htotal : 0 < totalLength) {j : ℕ}
    (hend : totalLength ≤ border lengths K) (hj : border lengths j < totalLength)
    (hzero : border lengths (j + 1) = border lengths j) :
    ¬ Follows lengths totalLength (stateAt lengths totalLength K).ranges := by
  have hmono := border_mono hnonneg
  intro h
  have hmaximal : ∀ i < K, Even i → Stripes.Maximal (border lengths) totalLength (border lengths i)
      (min (border lengths (i + 1)) totalLength) := by
    intro i hi heven
    exact (h.exactly ⟨border lengths i, min (border lengths (i + 1)) totalLength⟩).mp
      ((mem_map_rangesUpTo htotal.ne').mpr ⟨i, hi, heven, rfl⟩)
  have hjK : j < K := hmono.reflect_lt (hj.trans_le hend)
  by_cases heven : Even j
  · have hlt := (hmaximal j hjK heven).lt
    rw [hzero] at hlt
    exact absurd (hlt.trans_le (min_le_left _ _)) (lt_irrefl _)
  · cases j with
    | zero => exact heven Even.zero
    | succ i =>
      have hbefore : Even i := by simpa [Nat.even_add_one] using heven
      have hnext : Even (i + 2) := hbefore.add even_two
      have hnextK : i + 2 < K := hmono.reflect_lt ((hzero.trans_lt hj).trans_le hend)
      exact Stripes.not_maximal_of_empty hbefore hzero (hmaximal (i + 2) hnextK hnext).lt
        (hmaximal i (by omega) hbefore)

end Result

/-- **Dashing a stroke ends and follows the pattern** iff the path is empty, or there are lengths
    and none before the end of the path is zero. -/
theorem dashed_iff [IsStrictOrderedRing X] [Archimedean X] (lengths : List X) (totalLength : X)
    (hnonneg : ∀ d ∈ lengths, 0 ≤ d) :
    Dashed lengths totalLength ↔
      totalLength ≤ 0 ∨
        lengths ≠ [] ∧ ∀ j, lengths[j]? = some 0 → totalLength ≤ (lengths.take j).sum := by
  have hnew : (State.new : State X) = stateAt lengths totalLength 0 ∨ totalLength ≤ 0 := by
    by_cases htotal : totalLength ≤ 0
    · exact Or.inr htotal
    · refine Or.inl ?_
      unfold stateAt State.new
      rw [border_zero, min_eq_left (not_le.mp htotal).le]
      rfl
  constructor
  · intro h
    obtain ⟨fuel, s, hloop, hfollows⟩ := h
    by_cases htotal : totalLength ≤ 0
    · exact Or.inl htotal
    · have hpos := not_le.mp htotal
      refine Or.inr ?_
      have hlengths : lengths ≠ [] := by
        intro hnil
        subst hnil
        cases fuel with
        | zero => cases hloop
        | succ fuel =>
          -- the first round panics
          unfold loop at hloop
          rw [if_pos (show (State.new : State X).pos < totalLength from hpos)] at hloop
          cases hloop
      refine ⟨hlengths, ?_⟩
      rw [hnew.resolve_right htotal] at hloop
      obtain ⟨K, rfl, _, hend⟩ := of_loop_stateAt hlengths (fun i hi => absurd hi (by simp)) hloop
      intro j hj
      by_contra hlt
      obtain ⟨hbound, hentry⟩ := List.getElem?_eq_some_iff.mp hj
      rw [← border_eq_sum_take hbound.le] at hlt
      refine not_follows_of_zero hnonneg hpos hend (not_le.mp hlt) ?_ hfollows
      rw [border_succ, pattern_of_lt hbound, hentry, add_zero]
  · intro h
    by_cases htotal : totalLength ≤ 0
    · refine ⟨1, .new, ?_, ?_⟩
      · unfold loop
        rw [if_neg (show ¬ (State.new : State X).pos < totalLength from not_lt.mpr htotal)]
      · constructor
        · intro r
          constructor
          · intro hr
            cases hr
          · intro hmaximal
            have hlow := hmaximal.within.low
            rw [border_zero] at hlow
            exact absurd ((hlow.trans_lt hmaximal.lt).trans_le hmaximal.within.high)
              (not_lt.mpr htotal)
        · exact List.Pairwise.nil
    · obtain ⟨hlengths, hzero⟩ := h.resolve_left htotal
      have hpos := not_le.mp htotal
      have hstrict := border_strict hnonneg hlengths hzero
      -- the first border at or after the end of the path
      have hexists := exists_border_ge hnonneg hlengths hpos hstrict
      classical
      have hend := Nat.find_spec hexists
      have hbefore : ∀ k < Nat.find hexists, border lengths k < totalLength :=
        fun k hk => not_le.mp (Nat.find_min hexists hk)
      refine ⟨Nat.find hexists + 1, _, ?_, follows_stateAt hnonneg hpos hstrict hbefore hend⟩
      rw [hnew.resolve_right htotal]
      exact loop_stateAt hlengths hbefore hend _ (Nat.zero_add _)

/-- Dashes of five and gaps of two. -/
theorem dashed_five_two : Dashed ([5, 2] : List ℚ) 20 := by
  refine (dashed_iff [5, 2] 20 (by simp)).mpr (Or.inr ⟨by simp, ?_⟩)
  intro j hj
  match j with
  | 0 => cases hj
  | 1 => cases hj
  | j + 2 => cases hj

/-- Without lengths the first round panics. -/
theorem not_dashed_nil : ¬ Dashed ([] : List ℚ) 1 := by
  intro h
  obtain ⟨fuel, s, hloop, _⟩ := h
  cases fuel with
  | zero => cases hloop
  | succ fuel => cases hloop

end Dashes

end Gpui
