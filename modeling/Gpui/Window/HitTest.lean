import Gpui.Window.DeferredDraws

/-! # Which hitboxes a hit test finds

    A hitbox behind a `BlockMouse` is not found at all, one behind a `BlockMouseExceptScroll`
    only for scrolling.  The loop of the hit test goes through the hitboxes from the top,
    stops at the first that blocks the mouse, and remembers how many it had found at the first
    that blocks all but scrolling. -/

namespace Gpui

open List

variable {U : Type} [AddCommGroup U] [LinearOrder U]

/-! ### The documented rules -/

/-- The hitbox and its content mask contain the position. -/
def Hitbox.Contains (hitbox : Hitbox U) (position : Point U) : Prop :=
  hitbox.bounds.contains position = true ∧ hitbox.contentMask.contains position = true

/-- A hitbox that contains the position and behaves so is at one of the places. -/
def Blocked (hitboxes : List (Hitbox U)) (position : Point U) (behavior : HitboxBehavior)
    (places : Nat → Prop) : Prop :=
  ∃ j hitbox, places j ∧ hitboxes[j]? = some hitbox ∧ hitbox.Contains position ∧
    hitbox.behavior = behavior

/-- The hitbox at a place contains the position, and no later one blocks the mouse. -/
def HandlesScroll (hitboxes : List (Hitbox U)) (position : Point U) (i : Nat) : Prop :=
  (∃ hitbox, hitboxes[i]? = some hitbox ∧ hitbox.Contains position) ∧
    ¬ Blocked hitboxes position .blockMouse (i < ·)

/-- And no later one blocks all but scrolling. -/
def Hovers (hitboxes : List (Hitbox U)) (position : Point U) (i : Nat) : Prop :=
  HandlesScroll hitboxes position i ∧
    ¬ Blocked hitboxes position .blockMouseExceptScroll (i < ·)

/-- A hit test implements the rules: it finds the hitboxes at these places. -/
structure Occludes (hitboxes : List (Hitbox U)) (position : Point U)
    (found : DeferredFrame.HitTest) (places : List Nat) : Prop where
  ids : found.ids.map some = places.map (fun i => hitboxes[i]?.map Hitbox.id)
  /-- In reverse insertion order. -/
  reverse : places.Pairwise (· > ·)
  scroll : ∀ i, i ∈ places ↔ HandlesScroll hitboxes position i
  hover : ∀ i, i ∈ places.take found.hoverHitboxCount ↔ Hovers hitboxes position i

/-! ### Intersections -/

theorem Bounds.contains_iff (a : Bounds U) (p : Point U) :
    a.contains p = true ↔
      (a.origin.x ≤ p.x ∧ p.x < a.bottomRight.x) ∧ (a.origin.y ≤ p.y ∧ p.y < a.bottomRight.y) := by
  simp [contains, bottomRight, and_assoc]

/-- Also where the sizes are negative or the bounds do not meet. -/
theorem Bounds.contains_intersect (a b : Bounds U) (p : Point U) :
    (a.intersect b).contains p = true ↔ a.contains p = true ∧ b.contains p = true := by
  rw [contains_iff, contains_iff, contains_iff, intersect, bottomRight_fromCorners]
  show ((a.origin.max b.origin).x ≤ p.x ∧ _) ∧ ((a.origin.max b.origin).y ≤ p.y ∧ _) ↔ _
  simp only [Point.max_eq, Point.min_eq, sup_le_iff, lt_sup_iff, lt_inf_iff]
  constructor
  · rintro ⟨⟨⟨hax, hbx⟩, hx⟩, ⟨⟨hay, hby⟩, hy⟩⟩
    -- a point below the upper left corner is not right of it
    have hx' : p.x < a.bottomRight.x ∧ p.x < b.bottomRight.x := by
      rcases hx with hx | hx | hx
      · exact hx
      · exact absurd hx (not_lt.2 hax)
      · exact absurd hx (not_lt.2 hbx)
    have hy' : p.y < a.bottomRight.y ∧ p.y < b.bottomRight.y := by
      rcases hy with hy | hy | hy
      · exact hy
      · exact absurd hy (not_lt.2 hay)
      · exact absurd hy (not_lt.2 hby)
    exact ⟨⟨⟨hax, hx'.1⟩, ⟨hay, hy'.1⟩⟩, ⟨⟨hbx, hx'.2⟩, ⟨hby, hy'.2⟩⟩⟩
  · rintro ⟨⟨⟨hax, hax'⟩, ⟨hay, hay'⟩⟩, ⟨⟨hbx, hbx'⟩, ⟨hby, hby'⟩⟩⟩
    exact ⟨⟨⟨hax, hbx⟩, .inl ⟨hax', hbx'⟩⟩, ⟨⟨hay, hby⟩, .inl ⟨hay', hby'⟩⟩⟩

theorem Hitbox.contains_iff (hitbox : Hitbox U) (position : Point U) :
    (hitbox.bounds.intersect hitbox.contentMask).contains position = true ↔
      hitbox.Contains position :=
  Bounds.contains_intersect ..

/-! ### The loop, from the top -/

namespace DeferredFrame

/-- The places at which the loop finds a hitbox, counted from the top. -/
def foundAt (position : Point U) : List (Hitbox U) → List Nat
  | []             => []
  | hitbox :: rest =>
      if (hitbox.bounds.intersect hitbox.contentMask).contains position then
        if hitbox.behavior = .blockMouse then [0] else 0 :: (foundAt position rest).map (· + 1)
      else (foundAt position rest).map (· + 1)

/-- How many it has found when it sets its count. -/
def countAt (position : Point U) : List (Hitbox U) → Option Nat
  | []             => none
  | hitbox :: rest =>
      if (hitbox.bounds.intersect hitbox.contentMask).contains position then
        match hitbox.behavior with
        | .blockMouseExceptScroll => some 1
        | .blockMouse             => none
        | .normal                 => (countAt position rest).map (· + 1)
      else countAt position rest

theorem hitTestLoop_ids (position : Point U) (hitboxes : List (Hitbox U)) (ids : List Nat)
    (hoverCount : Option Nat) :
    (hitTestLoop position hitboxes ids hoverCount).1.map some =
      ids.map some ++ (foundAt position hitboxes).map (fun i => hitboxes[i]?.map Hitbox.id) := by
  induction hitboxes generalizing ids hoverCount with
  | nil => simp [hitTestLoop, foundAt]
  | cons hitbox rest ih =>
    -- the places in the rest are one further from the top
    have hshift : ((foundAt position rest).map (· + 1)).map
        (fun i => (hitbox :: rest)[i]?.map Hitbox.id) =
        (foundAt position rest).map (fun i => rest[i]?.map Hitbox.id) := by
      rw [map_map]
      rfl
    unfold hitTestLoop foundAt
    dsimp only
    split
    · split
      · simp
      · rw [ih, map_cons, hshift]
        simp
    · rw [ih, hshift]

theorem hitTestLoop_count (position : Point U) (hitboxes : List (Hitbox U)) (ids : List Nat)
    (hoverCount : Option Nat) :
    (hitTestLoop position hitboxes ids hoverCount).2 =
      hoverCount.or ((countAt position hitboxes).map (· + ids.length)) := by
  induction hitboxes generalizing ids hoverCount with
  | nil => simp [hitTestLoop, countAt]
  | cons hitbox rest ih =>
    unfold hitTestLoop countAt
    dsimp only
    split
    · cases hoverCount with
      | some count =>
        -- the count is set once
        split
        · rfl
        · rw [ih]
          rfl
      | none =>
        cases hitbox.behavior with
        | blockMouse => rfl
        | blockMouseExceptScroll => simp [ih, Nat.add_comm]
        | normal => simp [ih, Function.comp_def, Nat.add_comm, Nat.add_left_comm]
    · exact ih ids hoverCount

/-- The rules, for a list of hitboxes from the top. -/
def HandlesFromTop (hitboxes : List (Hitbox U)) (position : Point U) (i : Nat) : Prop :=
  (∃ hitbox, hitboxes[i]? = some hitbox ∧ hitbox.Contains position) ∧
    ¬ Blocked hitboxes position .blockMouse (· < i)

def HoversFromTop (hitboxes : List (Hitbox U)) (position : Point U) (i : Nat) : Prop :=
  HandlesFromTop hitboxes position i ∧
    ¬ Blocked hitboxes position .blockMouseExceptScroll (· < i)

theorem blocked_zero (hitboxes : List (Hitbox U)) (position : Point U)
    (behavior : HitboxBehavior) : ¬ Blocked hitboxes position behavior (· < 0) := by
  rintro ⟨j, hitbox, hlt, _⟩
  exact Nat.not_lt_zero j hlt

section

variable (hitbox : Hitbox U) (rest : List (Hitbox U)) (position : Point U)
include hitbox rest position

theorem blocked_succ (behavior : HitboxBehavior) (i : Nat) :
    Blocked (hitbox :: rest) position behavior (· < i + 1) ↔
      (hitbox.Contains position ∧ hitbox.behavior = behavior) ∨
        Blocked rest position behavior (· < i) := by
  constructor
  · rintro ⟨j, found, hlt, hget, hcontains, hbehavior⟩
    cases j with
    | zero =>
      cases hget
      exact .inl ⟨hcontains, hbehavior⟩
    | succ j => exact .inr ⟨j, found, Nat.lt_of_succ_lt_succ hlt, hget, hcontains, hbehavior⟩
  · rintro (⟨hcontains, hbehavior⟩ | ⟨j, found, hlt, hget, hcontains, hbehavior⟩)
    · exact ⟨0, hitbox, Nat.succ_pos i, rfl, hcontains, hbehavior⟩
    · exact ⟨j + 1, found, Nat.succ_lt_succ hlt, hget, hcontains, hbehavior⟩

theorem handlesFromTop_zero :
    HandlesFromTop (hitbox :: rest) position 0 ↔ hitbox.Contains position := by
  constructor
  · rintro ⟨⟨found, hget, hcontains⟩, _⟩
    cases hget
    exact hcontains
  · exact fun hcontains => ⟨⟨hitbox, rfl, hcontains⟩, blocked_zero _ _ _⟩

theorem handlesFromTop_succ (i : Nat) :
    HandlesFromTop (hitbox :: rest) position (i + 1) ↔
      ¬ (hitbox.Contains position ∧ hitbox.behavior = .blockMouse) ∧
        HandlesFromTop rest position i := by
  unfold HandlesFromTop
  rw [blocked_succ, getElem?_cons_succ, not_or]
  tauto

theorem hoversFromTop_zero :
    HoversFromTop (hitbox :: rest) position 0 ↔ hitbox.Contains position := by
  unfold HoversFromTop
  rw [handlesFromTop_zero]
  exact and_iff_left (blocked_zero _ _ _)

theorem hoversFromTop_succ (i : Nat) :
    HoversFromTop (hitbox :: rest) position (i + 1) ↔
      ¬ (hitbox.Contains position ∧ hitbox.behavior ≠ .normal) ∧
        HoversFromTop rest position i := by
  unfold HoversFromTop
  rw [blocked_succ, handlesFromTop_succ, not_or]
  cases hitbox.behavior <;> simp <;> tauto

end

variable {places : List Nat} {i k : Nat} {hitboxes : List (Hitbox U)} {position : Point U}

theorem mem_map_succ :
    i ∈ places.map (· + 1) ↔ ∃ k, i = k + 1 ∧ k ∈ places := by
  rw [mem_map]
  constructor
  · rintro ⟨k, hk, rfl⟩
    exact ⟨k, rfl, hk⟩
  · rintro ⟨k, rfl, hk⟩
    exact ⟨k, hk, rfl⟩

/-- **Scrolling.** -/
theorem mem_foundAt (position : Point U) (hitboxes : List (Hitbox U)) (i : Nat) :
    i ∈ foundAt position hitboxes ↔ HandlesFromTop hitboxes position i := by
  induction hitboxes generalizing i with
  | nil => simp [foundAt, HandlesFromTop]
  | cons hitbox rest ih =>
    unfold foundAt
    have hiff := hitbox.contains_iff position
    by_cases hcontains : hitbox.Contains position
    · rw [if_pos (hiff.2 hcontains)]
      cases i with
      | zero =>
        rw [handlesFromTop_zero]
        split <;> simp [hcontains]
      | succ i =>
        rw [handlesFromTop_succ, ← ih]
        split <;> rename_i hbehavior <;> simp [hcontains, hbehavior]
    · rw [if_neg (mt hiff.1 hcontains)]
      cases i with
      | zero => simp [handlesFromTop_zero, hcontains]
      | succ i => simp [handlesFromTop_succ, hcontains, ih]

/-- **Hovering.** -/
theorem mem_take_countAt (position : Point U) (hitboxes : List (Hitbox U)) (i : Nat) :
    i ∈ (foundAt position hitboxes).take
        ((countAt position hitboxes).getD (foundAt position hitboxes).length) ↔
      HoversFromTop hitboxes position i := by
  induction hitboxes generalizing i with
  | nil => simp [foundAt, HoversFromTop, HandlesFromTop]
  | cons hitbox rest ih =>
    -- the places of the rest that are hovered, one further from the top
    have hshift : ∀ i, i ∈ ((foundAt position rest).map (· + 1)).take
        ((countAt position rest).getD (foundAt position rest).length) ↔
        ∃ k, i = k + 1 ∧ HoversFromTop rest position k := by
      intro i
      rw [← map_take, mem_map_succ]
      simp only [ih]
    unfold foundAt countAt
    have hiff := hitbox.contains_iff position
    by_cases hcontains : hitbox.Contains position
    · rw [if_pos (hiff.2 hcontains), if_pos (hiff.2 hcontains)]
      cases hbehavior : hitbox.behavior with
      | normal =>
        have hcount : (((countAt position rest).map (· + 1)).getD
            ((0 :: (foundAt position rest).map (· + 1)).length)) =
            (countAt position rest).getD (foundAt position rest).length + 1 := by
          cases countAt position rest <;> simp
        simp only [reduceCtorEq, if_false, hcount, take_succ_cons, mem_cons]
        rw [hshift]
        cases i with
        | zero => simp [hoversFromTop_zero, hcontains]
        | succ i => simp [hoversFromTop_succ, hbehavior]
      | blockMouse | blockMouseExceptScroll =>
        cases i with
        | zero => simp [hoversFromTop_zero, hcontains]
        | succ i => simp [hoversFromTop_succ, hcontains, hbehavior]
    · rw [if_neg (mt hiff.1 hcontains), if_neg (mt hiff.1 hcontains), length_map, hshift]
      cases i with
      | zero => simp [hoversFromTop_zero, hcontains]
      | succ i => simp [hoversFromTop_succ, hcontains]

theorem foundAt_pairwise (position : Point U) (hitboxes : List (Hitbox U)) :
    (foundAt position hitboxes).Pairwise (· < ·) := by
  induction hitboxes with
  | nil => exact List.Pairwise.nil
  | cons hitbox rest ih =>
    have hshift : ((foundAt position rest).map (· + 1)).Pairwise (· < ·) :=
      ih.map _ (fun _ _ hlt => Nat.succ_lt_succ hlt)
    unfold foundAt
    split
    · split
      · exact pairwise_singleton ..
      · refine List.Pairwise.cons ?_ hshift
        intro i hi
        obtain ⟨k, rfl, _⟩ := mem_map_succ.1 hi
        exact Nat.succ_pos k
    · exact hshift

/-! ### In insertion order -/

theorem Blocked.reverse
    {behavior : HitboxBehavior} (hk : k < hitboxes.length) :
    Blocked hitboxes.reverse position behavior (· < k) ↔
      Blocked hitboxes position behavior (hitboxes.length - 1 - k < ·) := by
  constructor
  · rintro ⟨j, hitbox, hlt, hget, hrest⟩
    have hj : j < hitboxes.length := Nat.lt_trans hlt hk
    rw [getElem?_reverse hj] at hget
    exact ⟨hitboxes.length - 1 - j, hitbox, by omega, hget, hrest⟩
  · rintro ⟨j, hitbox, hlt, hget, hrest⟩
    have hj : j < hitboxes.length := (List.getElem?_eq_some_iff.1 hget).1
    refine ⟨hitboxes.length - 1 - j, hitbox, by omega, ?_, hrest⟩
    rw [getElem?_reverse (by omega), show hitboxes.length - 1 - (hitboxes.length - 1 - j) = j by omega]
    exact hget

theorem handlesFromTop_reverse
    (hk : k < hitboxes.length) :
    HandlesFromTop hitboxes.reverse position k ↔
      HandlesScroll hitboxes position (hitboxes.length - 1 - k) := by
  unfold HandlesFromTop HandlesScroll
  rw [Blocked.reverse hk, getElem?_reverse hk]

theorem hoversFromTop_reverse
    (hk : k < hitboxes.length) :
    HoversFromTop hitboxes.reverse position k ↔
      Hovers hitboxes position (hitboxes.length - 1 - k) := by
  unfold HoversFromTop Hovers
  rw [Blocked.reverse hk, handlesFromTop_reverse hk]

theorem HandlesFromTop.lt
    (h : HandlesFromTop hitboxes position k) : k < hitboxes.length := by
  obtain ⟨⟨hitbox, hget, _⟩, _⟩ := h
  exact (List.getElem?_eq_some_iff.1 hget).1

/-- Places counted from the end of a list. -/
theorem mem_map_fromEnd {n : Nat} {P Q : Nat → Prop}
    (hplaces : ∀ k, k ∈ places ↔ P k) (hP : ∀ k, P k → k < n) (hQ : ∀ i, Q i → i < n)
    (hiff : ∀ k, k < n → (P k ↔ Q (n - 1 - k))) (i : Nat) :
    i ∈ places.map (n - 1 - ·) ↔ Q i := by
  rw [mem_map]
  constructor
  · rintro ⟨k, hk, rfl⟩
    have hPk := (hplaces k).1 hk
    exact (hiff k (hP k hPk)).1 hPk
  · intro hQi
    have hi := hQ i hQi
    have hback : n - 1 - (n - 1 - i) = i := by omega
    refine ⟨n - 1 - i, (hplaces _).2 ((hiff _ (by omega)).2 ?_), hback⟩
    rw [hback]
    exact hQi

/-- The places at which a hit test finds a hitbox. -/
def foundPlaces (frame : DeferredFrame U) (position : Point U) : List Nat :=
  (foundAt position frame.hitboxes.reverse).map (frame.hitboxes.length - 1 - ·)

theorem occludes_foundPlaces (frame : DeferredFrame U) (position : Point U) :
    Occludes frame.hitboxes position (frame.hitTest position) (frame.foundPlaces position) := by
  have hlt : ∀ k, k ∈ foundAt position frame.hitboxes.reverse → k < frame.hitboxes.length := by
    intro k hk
    have hmem := (mem_foundAt position _ k).1 hk
    simpa using hmem.lt
  have hids := hitTestLoop_ids position frame.hitboxes.reverse [] none
  have hcount := hitTestLoop_count position frame.hitboxes.reverse [] none
  have hlength := congrArg List.length hids
  simp only [length_map, map_nil, nil_append] at hlength
  refine ⟨?_, ?_, ?_, ?_⟩
  · show (hitTestLoop position frame.hitboxes.reverse [] none).1.map some = _
    rw [hids, map_nil, nil_append, foundPlaces, map_map]
    apply map_congr_left
    intro k hk
    rw [getElem?_reverse (hlt k hk)]
    rfl
  · -- later places are nearer to the top
    rw [foundPlaces, pairwise_map]
    refine (foundAt_pairwise position frame.hitboxes.reverse).imp_of_mem ?_
    intro k k' hk hk' hkk'
    have hk₂ := hlt k' hk'
    omega
  · apply mem_map_fromEnd (mem_foundAt position frame.hitboxes.reverse)
    · intro k h
      simpa using h.lt
    · rintro i ⟨⟨hitbox, hget, _⟩, _⟩
      exact (List.getElem?_eq_some_iff.1 hget).1
    · exact fun k hk => handlesFromTop_reverse hk
  · have htake : (frame.hitTest position).hoverHitboxCount =
        (countAt position frame.hitboxes.reverse).getD
          (foundAt position frame.hitboxes.reverse).length := by
      show (hitTestLoop position frame.hitboxes.reverse [] none).2.getD
        (hitTestLoop position frame.hitboxes.reverse [] none).1.length = _
      rw [hcount, hlength]
      simp
    intro i
    rw [htake, foundPlaces, ← map_take]
    apply mem_map_fromEnd (mem_take_countAt position frame.hitboxes.reverse)
    · intro k h
      simpa using h.1.lt
    · rintro i ⟨⟨⟨hitbox, hget, _⟩, _⟩, _⟩
      exact (List.getElem?_eq_some_iff.1 hget).1
    · exact fun k hk => hoversFromTop_reverse hk

/-! ### The rules for ids -/

omit [AddCommGroup U] [LinearOrder U] in
/-- The ids of a list of places, for hitboxes whose ids differ. -/
theorem mem_ids (hnodup : (hitboxes.map Hitbox.id).Nodup)
    {ids : List Nat} (hids : ids.map some = places.map (fun i => hitboxes[i]?.map Hitbox.id))
    {hitbox : Hitbox U} (hget : hitboxes[i]? = some hitbox) :
    hitbox.id ∈ ids ↔ i ∈ places := by
  have hiff : hitbox.id ∈ ids ↔ some hitbox.id ∈ ids.map some := by simp
  rw [hiff, hids, mem_map]
  constructor
  · rintro ⟨k, hk, hsome⟩
    have hmap : (hitboxes.map Hitbox.id)[k]? = (hitboxes.map Hitbox.id)[i]? := by
      rw [getElem?_map, getElem?_map, hsome, hget]
      rfl
    have hi : i < (hitboxes.map Hitbox.id).length := by
      rw [length_map]
      exact (List.getElem?_eq_some_iff.1 hget).1
    have hik : i = k := (getElem?_inj hi hnodup).1 hmap.symm
    rw [hik]
    exact hk
  · intro hi
    exact ⟨i, hi, by rw [hget]; rfl⟩

/-- The ids that are found, for hitboxes whose ids differ. -/
theorem id_mem_iff (frame : DeferredFrame U) (position : Point U)
    (hnodup : (frame.hitboxes.map Hitbox.id).Nodup) {hitbox : Hitbox U}
    (hget : frame.hitboxes[i]? = some hitbox) :
    (hitbox.id ∈ (frame.hitTest position).ids ↔ HandlesScroll frame.hitboxes position i) ∧
      (hitbox.id ∈ (frame.hitTest position).ids.take (frame.hitTest position).hoverHitboxCount ↔
        Hovers frame.hitboxes position i) := by
  obtain ⟨hids, _, hscroll, hhover⟩ := occludes_foundPlaces frame position
  rw [← hscroll, ← hhover]
  refine ⟨mem_ids hnodup hids hget, mem_ids hnodup ?_ hget⟩
  rw [map_take, map_take, hids]

/-- Hit testing implements the documented rules, for hitboxes of any bounds, content masks
    and behaviors; where the ids of the hitboxes differ, they say which ids are found. -/
theorem hitTest_occludes (frame : DeferredFrame U) (position : Point U) :
    (∃ places, Occludes frame.hitboxes position (frame.hitTest position) places) ∧
      ((frame.hitboxes.map Hitbox.id).Nodup → ∀ i hitbox, frame.hitboxes[i]? = some hitbox →
        (hitbox.id ∈ (frame.hitTest position).ids ↔ HandlesScroll frame.hitboxes position i) ∧
        (hitbox.id ∈ (frame.hitTest position).ids.take
            (frame.hitTest position).hoverHitboxCount ↔
          Hovers frame.hitboxes position i)) :=
  ⟨⟨_, occludes_foundPlaces frame position⟩,
    fun hnodup _ _ hget => id_mem_iff frame position hnodup hget⟩

end DeferredFrame

end Gpui
