import Gpui.SumTree.FindSpec
import Gpui.SumTree.KeyOrder

/-! # SumTree: what `find_exact` depends on

    The descent of `find_exact` goes by the bias, the test in the leaf by equality.
    With `Bias::Left` the leaf of the descent holds the first item that ends at the
    target, if there is one.  With `Bias::Right` it holds the first item behind the
    target, and an item that ends at the target is only seen when it shares a leaf
    with the next one: the result depends on where the tree is split. -/

set_option linter.unusedSectionVars false

namespace Gpui

open List

variable {T S D : Type} [Summary S] [Item T S] [Dimension D S]

/-! ## Items that end at a target -/

/-- The first of the items behind `d` that ends at the target. -/
def endingAt (target : SeekTarget D) (d : D) : List T → Option T
  | []      => none
  | x :: xs =>
      let e := Dimension.addSummary d (Item.summary x)
      if target e = .eq then some x else endingAt target e xs

section EndingAt

variable {target : SeekTarget D}

theorem endingAt_append (d : D) (xs ys : List T) :
    endingAt target d (xs ++ ys) =
      (endingAt target d xs).or (endingAt target (measureFrom d xs) ys) := by
  induction xs generalizing d with
  | nil => simp [endingAt]
  | cons x xs ih =>
    rw [cons_append, endingAt, endingAt, measureFrom_cons]
    split
    · rfl
    · exact ih _

theorem endingAt_eq_none {d : D} {xs : List T} :
    endingAt target d xs = none ↔
      ∀ before x after, xs = before ++ x :: after →
        target (measureFrom d (before ++ [x])) ≠ .eq := by
  induction xs generalizing d with
  | nil => simp [endingAt]
  | cons y xs ih =>
    rw [endingAt]
    split
    · next heq =>
      refine iff_of_false (by simp) fun h => ?_
      exact h [] y xs rfl (by simpa using heq)
    · next hne =>
      rw [ih]
      constructor
      · intro h before x after hxs
        cases before with
        | nil =>
          obtain ⟨rfl, rfl⟩ := cons_eq_cons.mp hxs
          simpa using hne
        | cons z before =>
          obtain ⟨rfl, rfl⟩ := cons_eq_cons.mp hxs
          simpa using h before x after rfl
      · intro h before x after hxs
        simpa using h (y :: before) x after (by rw [hxs]; rfl)

/-- What is found ends at the target. -/
theorem endingAt_eq_some {d : D} {xs : List T} {x : T} (h : endingAt target d xs = some x) :
    ∃ before after, xs = before ++ x :: after ∧
      target (measureFrom d (before ++ [x])) = .eq := by
  induction xs generalizing d with
  | nil => cases h
  | cons y xs ih =>
    rw [endingAt] at h
    split at h
    · next heq =>
      obtain rfl := Option.some.inj h
      exact ⟨[], xs, rfl, by simpa using heq⟩
    · obtain ⟨before, after, rfl, heq⟩ := ih h
      exact ⟨y :: before, after, rfl, by simpa using heq⟩

end EndingAt

namespace SumTree

section Leaf

variable [LawfulSummary S] [LawfulDimension D S] {target : SeekTarget D} {bias : Bias}
  {t : SumTree T S}

theorem scanLeaf_exact (bias : Bias) (leaf : List T) (d : D) :
    (scanLeaf true target bias leaf d).2.map Prod.fst = endingAt target d leaf := by
  induction leaf generalizing d with
  | nil => rfl
  | cons x leaf ih =>
    simp only [scanLeaf, map_cons, zip_cons_cons, findItem, entryFound, if_true,
      beq_iff_eq, endingAt]
    split
    · rfl
    · exact ih _

/-- The item that `find_exact` returns. -/
abbrev exactItem (t : SumTree T S) (target : SeekTarget D) (bias : Bias) : Option T :=
  (t.findExact target bias).2.2

/-- In reach of the end of the tree nothing is looked for. -/
theorem exactItem_of_reached (hr : reached target bias (t.treeEnd D) = true) :
    t.exactItem target bias = none := by
  simp [exactItem, findExact, hr]

/-- Before the end of the tree one leaf is looked at. -/
theorem WellFormed.exactItem_eq (wf : t.WellFormed) (hne : t.toList ≠ [])
    (hr : reached target bias (measure D t.toList) = false) :
    ∃ passed leaf behind, Descent target bias [] t.leaves passed leaf behind ∧
      t.exactItem target bias = endingAt target (measure D passed.flatten) leaf := by
  have hend : reached target bias (t.treeEnd D) = false := by rwa [wf.treeEnd_eq hne]
  rcases wf with rfl | ⟨h, _, wf⟩
  · exact absurd rfl hne
  obtain ⟨passed, leaf, behind, descent, hscan⟩ := wf.descends [] hr
  refine ⟨passed, leaf, behind, descent, ?_⟩
  have hiterate := (hscan true).1
  rw [nil_append, measure_nil] at hiterate
  rw [← scanLeaf_exact bias, ← hiterate, exactItem, findExact, hend]
  simp only [Bool.false_eq_true, if_false]
  split <;> next heq => simp [heq]

/-- The item `x` is the first of its leaf to end at the target, and the leaf ends
    behind the target. -/
def MeetsInLeaf (target : SeekTarget D) (t : SumTree T S) (x : T) : Prop :=
  ∃ passed leaf behind, t.leaves = passed ++ leaf :: behind ∧
    endingAt target (measure D passed.flatten) leaf = some x ∧
    target (measure D (passed.flatten ++ leaf)) = .lt

/-! ## `Bias::Left` -/

/-- With `Bias::Left` the leaf of the descent is as good as the whole tree. -/
theorem WellFormed.exactItem_left (wf : t.WellFormed) (mono : MonotoneTarget target t.toList)
    (hne : t.toList ≠ []) (hr : reached target .left (measure D t.toList) = false) :
    t.exactItem target .left = endingAt target (Dimension.zero S) t.toList := by
  obtain ⟨passed, leaf, behind, ⟨hsplit, hleaf, hreached, hstops⟩, hitem⟩ :=
    wf.exactItem_eq hne hr
  have hitems : t.toList = passed.flatten ++ (leaf ++ behind.flatten) := by
    rw [← wf.flatten_leaves, hsplit]
    simp
  -- what was passed ends before the target
  have hpassed : endingAt target (Dimension.zero S) passed.flatten = none := by
    refine endingAt_eq_none.mpr fun before x after hcut heq => ?_
    have hgt : target (measure D passed.flatten) = .gt := by
      simpa [Gpui.reached] using hreached (by rw [hcut]; simp)
    have := (mono (before ++ [x]) after (leaf ++ behind.flatten)
      (by rw [hitems, hcut]; simp)).1 (by rw [← hgt, hcut]; simp)
    exact absurd (heq.symm.trans this) (by simp)
  rw [hitem, hitems, endingAt_append, hpassed, Option.none_or, endingAt_append]
  cases hfound : endingAt target (measure D passed.flatten) leaf with
  | some x => exact (by rw [show measureFrom (Dimension.zero S) passed.flatten =
      measure D passed.flatten from rfl, hfound]; rfl)
  | none =>
    -- the leaf ends behind the target, and so does everything after it
    obtain ⟨init, last, rfl⟩ := eq_nil_or_concat' leaf |>.resolve_left hleaf
    have hend : target (measure D (passed.flatten ++ (init ++ [last]))) = .lt := by
      have hneq := endingAt_eq_none.mp hfound init last [] rfl
      rw [← measure_append] at hneq
      cases h : target (measure D (passed.flatten ++ (init ++ [last]))) with
      | lt => rfl
      | eq => exact absurd h hneq
      | gt => simp [Gpui.reached, h] at hstops
    rw [show measureFrom (Dimension.zero S) passed.flatten = measure D passed.flatten from rfl,
      hfound, Option.none_or]
    refine (endingAt_eq_none.mpr fun before x after hcut heq => ?_).symm
    rw [← measure_append, ← measure_append] at heq
    have := (mono (passed.flatten ++ (init ++ [last])) (before ++ [x]) after
      (by rw [hitems, hcut]; simp)).2 hend
    exact absurd (heq.symm.trans this) (by simp)

/-! ## `Bias::Right` -/

/-- With `Bias::Right` a match is seen in the leaf of the item behind it only. -/
theorem WellFormed.exactItem_right (wf : t.WellFormed) (mono : MonotoneTarget target t.toList)
    {x : T} : t.exactItem target .right = some x ↔ MeetsInLeaf target t x := by
  by_cases hne : t.toList = []
  · obtain rfl := wf.eq_new ((isEmpty_iff_toList wf).mpr hne)
    refine iff_of_false ?_ ?_
    · simp only [exactItem, findExact]
      split <;> simp [new, findIterate, findItem]
    · rintro ⟨passed, leaf, behind, hsplit, hfound, -⟩
      obtain ⟨before, after, rfl, -⟩ := endingAt_eq_some hfound
      have hflat := congrArg List.flatten hsplit
      simp [new] at hflat
  have hflat := wf.flatten_leaves
  constructor
  · intro hitem
    cases hr : Gpui.reached target .right (measure D t.toList) with
    | true =>
      rw [exactItem_of_reached (by rwa [wf.treeEnd_eq hne])] at hitem
      cases hitem
    | false =>
      obtain ⟨passed, leaf, behind, descent, heq⟩ := wf.exactItem_eq hne hr
      refine ⟨passed, leaf, behind, descent.split, heq.symm.trans hitem, ?_⟩
      have hstops := descent.stops
      cases h : target (measure D (passed.flatten ++ leaf)) with
      | lt => rfl
      | eq => simp [Gpui.reached, h] at hstops
      | gt => simp [Gpui.reached, h] at hstops
  · rintro ⟨passed, leaf, behind, hsplit, hfound, hend⟩
    have hitems : t.toList = passed.flatten ++ leaf ++ behind.flatten := by
      rw [← hflat, hsplit]
      simp
    have hr : Gpui.reached target .right (measure D t.toList) = false := by
      have hlt := (mono (passed.flatten ++ leaf) behind.flatten [] (by simp [hitems])).2 hend
      rw [← hitems] at hlt
      simp [Gpui.reached, hlt]
    obtain ⟨passed', leaf', behind', ⟨hsplit', hleaf', hreached', hstops'⟩, hitem⟩ :=
      wf.exactItem_eq hne hr
    rw [hitem]
    simp only [nil_append] at hreached' hstops'
    rw [hsplit] at hsplit'
    obtain ⟨before, after, hleaf, hmet⟩ := endingAt_eq_some hfound
    rw [← measure_append] at hmet
    -- both leaves are the one that holds the first item behind the target
    rcases append_eq_append_iff.mp hsplit' with ⟨a, ha, hb⟩ | ⟨a, ha, hb⟩
    · cases a with
      | nil =>
        rw [append_nil] at ha
        obtain ⟨rfl, rfl⟩ := cons_eq_cons.mp hb
        rw [ha]
        exact hfound
      | cons y a =>
        -- the descent has passed the leaf
        obtain ⟨rfl, -⟩ := cons_eq_cons.mp hb
        exfalso
        have hpassed : passed'.flatten = passed.flatten ++ leaf ++ a.flatten := by
          rw [ha]
          simp
        have hlt := (mono (passed.flatten ++ leaf) a.flatten
          (leaf' ++ behind'.flatten) (by
            rw [← hflat, hsplit, hsplit', flatten_append, hpassed]
            simp)).2 hend
        have hne' : passed'.flatten ≠ [] := by
          rw [hpassed, hleaf]
          simp
        have := hreached' hne'
        rw [hpassed, Gpui.reached, hlt] at this
        cases this
    · cases a with
      | nil =>
        rw [append_nil] at ha
        obtain ⟨rfl, rfl⟩ := cons_eq_cons.mp hb
        rw [← ha]
        exact hfound
      | cons y a =>
        -- the descent has stopped before the leaf
        obtain ⟨rfl, -⟩ := cons_eq_cons.mp hb
        exfalso
        have hlt : target (measure D (passed'.flatten ++ leaf')) = .lt := by
          cases h : target (measure D (passed'.flatten ++ leaf')) with
          | lt => rfl
          | eq => simp [Gpui.reached, h] at hstops'
          | gt => simp [Gpui.reached, h] at hstops'
        have hpassed : passed.flatten = passed'.flatten ++ leaf' ++ a.flatten := by
          rw [ha]
          simp
        have := (mono (passed'.flatten ++ leaf') (a.flatten ++ (before ++ [x]))
          (after ++ behind.flatten) (by
            rw [hitems, hpassed, hleaf]
            simp)).2 hlt
        rw [hpassed] at hmet
        rw [← append_assoc, hmet] at this
        cases this

/-! ## Two trees of the same items -/

/-- Some item ends at the target, strictly inside the extent of the tree. -/
def EndsInside (target : SeekTarget D) (t : SumTree T S) : Prop :=
  target (Dimension.zero S) = .gt ∧ target (t.treeEnd D) = .lt ∧
    ∃ before x after, t.toList = before ++ x :: after ∧
      target (measure D (before ++ [x])) = .eq

/-- What `find_exact` should give in two trees of the same items. -/
structure ExactAlike (target : SeekTarget D) (bias : Bias) (t u : SumTree T S) : Prop where
  same : t.exactItem target bias = u.exactItem target bias
  meets : ∀ x, t.exactItem target bias = some x →
    ∃ before after, t.toList = before ++ x :: after ∧ target (measure D (before ++ [x])) = .eq
  found : EndsInside target t → t.exactItem target bias ≠ none

end Leaf

section Alike

variable [LawfulSummary S] [LawfulDimension D S] {t u : SumTree T S} {target : SeekTarget D}

/-- With the bias to the left the item that ends at the target is found in any tree. -/
theorem WellFormed.exactAlike_left (wft : t.WellFormed) (wfu : u.WellFormed)
    (hitems : t.toList = u.toList) (mono : MonotoneTarget target t.toList) :
    ExactAlike target .left t u := by
  by_cases hne : t.toList = []
  · -- both trees are empty
    obtain rfl := wft.eq_new ((isEmpty_iff_toList wft).mpr hne)
    obtain rfl := wfu.eq_new ((isEmpty_iff_toList wfu).mpr (hitems ▸ hne))
    have hnone : (new : SumTree T S).exactItem target .left = none := by
      simp only [exactItem, findExact]
      split <;> simp [new, findIterate, findItem]
    refine ⟨rfl, fun x hx => ?_, ?_⟩
    · rw [hnone] at hx
      cases hx
    · rintro ⟨-, -, before, x, after, hcut, -⟩
      simp [new] at hcut
  cases hr : reached target .left (measure D t.toList) with
  | true =>
    -- the target is behind the items
    have ht : t.exactItem target .left = none :=
      exactItem_of_reached (by rwa [wft.treeEnd_eq hne])
    have hu : u.exactItem target .left = none :=
      exactItem_of_reached (by rwa [wfu.treeEnd_eq (hitems ▸ hne), ← hitems])
    refine ⟨ht.trans hu.symm, fun x hx => ?_, ?_⟩
    · rw [ht] at hx
      cases hx
    · rintro ⟨-, hlt, -⟩
      rw [wft.treeEnd_eq hne] at hlt
      rw [reached, hlt] at hr
      cases hr
  | false =>
    have ht := wft.exactItem_left mono hne hr
    have hu := wfu.exactItem_left (hitems ▸ mono) (hitems ▸ hne) (hitems ▸ hr)
    refine ⟨by rw [ht, hu, hitems], fun x hx => endingAt_eq_some (ht.symm.trans hx), ?_⟩
    rintro ⟨-, -, before, x, after, hcut, heq⟩ hnone
    exact endingAt_eq_none.mp (ht.symm.trans hnone) before x after hcut heq

/-- With the bias to the right an item is found if its leaf does not end behind it. -/
theorem WellFormed.exactAlike_right_iff (wft : t.WellFormed) (wfu : u.WellFormed)
    (hitems : t.toList = u.toList) (mono : MonotoneTarget target t.toList) :
    ExactAlike target .right t u ↔
      (∀ x, MeetsInLeaf target t x ↔ MeetsInLeaf target u x) ∧
        (EndsInside target t → ∃ x, MeetsInLeaf target t x) := by
  have ht := fun x => wft.exactItem_right mono (x := x)
  have hu := fun x => wfu.exactItem_right (hitems ▸ mono) (x := x)
  constructor
  · intro alike
    refine ⟨fun x => ?_, fun hinside => ?_⟩
    · rw [← ht x, ← hu x, alike.same]
    · obtain ⟨x, hx⟩ := Option.ne_none_iff_exists'.mp (alike.found hinside)
      exact ⟨x, (ht x).mp hx⟩
  · intro ⟨hsame, hfound⟩
    refine ⟨Option.ext fun x => ?_, fun x hx => ?_, fun hinside hnone => ?_⟩
    · rw [ht x, hu x, hsame x]
    · obtain ⟨passed, leaf, behind, hsplit, hending, -⟩ := (ht x).mp hx
      obtain ⟨before, after, rfl, heq⟩ := endingAt_eq_some hending
      refine ⟨passed.flatten ++ before, after ++ behind.flatten, ?_, ?_⟩
      · rw [← wft.flatten_leaves, hsplit]
        simp
      · rw [append_assoc, measure_append]
        exact heq
    · obtain ⟨x, hx⟩ := hfound hinside
      rw [(ht x).mpr hx] at hnone
      cases hnone

end Alike

end SumTree

open SumTree in
/-- **`find_exact` and the shape of the tree**: two trees of the same items give the same
    item, and one for every target strictly inside, exactly when the bias is left, or no
    leaf of either tree is split behind the item that ends at the target. -/
theorem find_exact_alike_iff [LawfulSummary S] [LawfulDimension D S] {t u : SumTree T S}
    (wft : t.WellFormed) (wfu : u.WellFormed) (hitems : t.toList = u.toList)
    {target : SeekTarget D} (mono : MonotoneTarget target t.toList) (bias : Bias) :
    ExactAlike target bias t u ↔
      bias = .left ∨ ((∀ x, MeetsInLeaf target t x ↔ MeetsInLeaf target u x) ∧
        (EndsInside target t → ∃ x, MeetsInLeaf target t x)) := by
  cases bias with
  | left => exact iff_of_true (wft.exactAlike_left wfu hitems mono) (.inl rfl)
  | right =>
    rw [wft.exactAlike_right_iff wfu hitems mono]
    simp

/-! ## A leaf that ends at the target -/

/-- A leaf of map entries. -/
def leafOf (keys : List Nat) : SumTree (MapEntry Nat Unit) (MapKey Nat) :=
  .leaf ⟨keys.getLast?⟩ (keys.map fun k => ⟨k, ()⟩) (keys.map fun k => ⟨some k⟩)

/-- A tree of two leaves. -/
def twoLeaves (left right : List Nat) : SumTree (MapEntry Nat Unit) (MapKey Nat) :=
  .internal 1 ⟨right.getLast?⟩ [⟨left.getLast?⟩, ⟨right.getLast?⟩] [leafOf left, leafOf right]

/-- `from_iter` fills the first leaf. -/
theorem reachable_fullLeaf : Reachable (twoLeaves [0, 1, 2, 3, 4, 5, 6, 7, 8, 9, 10, 11] [12]) :=
  .fromIter (l := (List.range 13).map fun k => ⟨k, ()⟩) rfl

/-- `append` splits an overfull leaf in the middle. -/
theorem reachable_halfLeaves : Reachable (twoLeaves [0, 1, 2, 3, 4, 5, 6] [7, 8, 9, 10, 11, 12]) :=
  .append (.fromIter (l := (List.range 7).map fun k => ⟨k, ()⟩) rfl)
    (.fromIter (l := (List.range' 7 6).map fun k => ⟨k, ()⟩) rfl) rfl

theorem find_exact_alike_halfLeaves :
    SumTree.ExactAlike (TreeMap.keyRef 11) .left
      (twoLeaves [0, 1, 2, 3, 4, 5, 6, 7, 8, 9, 10, 11] [12])
      (twoLeaves [0, 1, 2, 3, 4, 5, 6] [7, 8, 9, 10, 11, 12]) :=
  (find_exact_alike_iff reachable_fullLeaf.wellFormed reachable_halfLeaves.wellFormed rfl
    (keyRef_eq 11 ▸ monotoneTarget_adaptor (monotone_compare 11) (by decide)) .left).mpr (.inl rfl)

/-- The two trees hold the same items, and with `Bias::Right` the item of key 11 is
    found in the second only. -/
theorem find_exact_misses :
    Reachable (twoLeaves [0, 1, 2, 3, 4, 5, 6, 7, 8, 9, 10, 11] [12]) ∧
      Reachable (twoLeaves [0, 1, 2, 3, 4, 5, 6] [7, 8, 9, 10, 11, 12]) ∧
      MonotoneTarget (TreeMap.keyRef 11)
        (twoLeaves [0, 1, 2, 3, 4, 5, 6, 7, 8, 9, 10, 11] [12]).toList ∧
      (twoLeaves [0, 1, 2, 3, 4, 5, 6, 7, 8, 9, 10, 11] [12]).toList =
        (twoLeaves [0, 1, 2, 3, 4, 5, 6] [7, 8, 9, 10, 11, 12]).toList ∧
      ¬ SumTree.ExactAlike (TreeMap.keyRef 11) .right
        (twoLeaves [0, 1, 2, 3, 4, 5, 6, 7, 8, 9, 10, 11] [12])
        (twoLeaves [0, 1, 2, 3, 4, 5, 6] [7, 8, 9, 10, 11, 12]) := by
  refine ⟨reachable_fullLeaf, reachable_halfLeaves,
    keyRef_eq 11 ▸ monotoneTarget_adaptor (monotone_compare 11) (by decide), rfl, fun alike => ?_⟩
  exact absurd alike.same (by decide)

end Gpui
