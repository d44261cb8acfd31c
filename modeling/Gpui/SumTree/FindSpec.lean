import Gpui.SumTree.Find
import Gpui.SumTree.Slices
import Gpui.SumTree.Neighbours

/-! # SumTree: what finding finds

    The descent of `find` is a cut of the tree at one leaf: everything before the
    leaf is in reach of the target, and the end of the leaf is not.  What happens
    in the leaf is a scan of a list.  So `find` is a seek, and `find_exact` sees
    no further than the leaf that it descends to. -/

set_option linter.unusedSectionVars false

namespace Gpui

open List

open Exec (Returns Ensures)

variable {T S D : Type} [Summary S] [Item T S] [Dimension D S]

/-- The two comparisons with the end of a child leave no third case. -/
theorem targetInChild_eq (target : SeekTarget D) (bias : Bias) (e : D) :
    targetInChild target bias e = !reached target bias e := by
  unfold targetInChild reached
  cases target e <;> cases bias <;> rfl

/-! ## Leaves -/

namespace SumTree

mutual
/-- The items of a tree, leaf by leaf. -/
def leaves : SumTree T S → List (List T)
  | .internal _ _ _ cts => leavesForest cts
  | .leaf _ its _       => [its]

/-- The leaves of a row of trees. -/
def leavesForest : List (SumTree T S) → List (List T)
  | []      => []
  | c :: cs => c.leaves ++ leavesForest cs
end

@[simp] theorem leaves_internal (h : Nat) (s : S) (css : List S) (cts : List (SumTree T S)) :
    (internal h s css cts).leaves = leavesForest cts := by rw [leaves]

@[simp] theorem leaves_leaf (s : S) (its : List T) (iss : List S) :
    (leaf s its iss).leaves = [its] := by rw [leaves]

@[simp] theorem leavesForest_nil : leavesForest ([] : List (SumTree T S)) = [] := by
  rw [leavesForest]

@[simp] theorem leavesForest_cons (c : SumTree T S) (cs : List (SumTree T S)) :
    leavesForest (c :: cs) = c.leaves ++ leavesForest cs := by rw [leavesForest]

variable {t : SumTree T S} {h : Nat}

theorem Wf.flatten_leaves (wf : Wf h t) : t.leaves.flatten = t.toList := by
  induction wf with
  | leaf => simp
  | @internal h cts ne le children ih =>
    have forest : ∀ cts : List (SumTree T S), (∀ c ∈ cts, c.leaves.flatten = c.toList) →
        (leavesForest cts).flatten = toListForest cts := by
      intro cts
      induction cts with
      | nil => simp
      | cons c cs ihcs =>
        intro hcs
        simp [hcs c (by simp), ihcs (fun b hb => hcs b (by simp [hb]))]
    simpa using forest cts ih

theorem WellFormed.flatten_leaves (wf : t.WellFormed) : t.leaves.flatten = t.toList := by
  rcases wf with rfl | ⟨h, _, wf⟩
  · simp [new]
  · exact wf.flatten_leaves

/-! ## The descent -/

section Descent

variable [LawfulSummary S] [LawfulDimension D S] {target : SeekTarget D} {bias : Bias}

/-- The descent for `target` leaves the leaves `passed` behind and ends in `leaf`;
    `before` are the items before the tree. -/
structure Descent (target : SeekTarget D) (bias : Bias) (before : List T)
    (leaves passed : List (List T)) (leaf : List T) (behind : List (List T)) : Prop where
  split : leaves = passed ++ leaf :: behind
  nonempty : leaf ≠ []
  reached : passed.flatten ≠ [] →
    Gpui.reached target bias (measure D (before ++ passed.flatten)) = true
  stops : Gpui.reached target bias (measure D (before ++ passed.flatten ++ leaf)) = false

/-- Passing a child on the way lengthens what the descent left behind. -/
theorem Descent.cons {before : List T} {first leaves passed : List (List T)} {leaf : List T}
    {behind : List (List T)}
    (hfirst : Gpui.reached target bias (measure D (before ++ first.flatten)) = true)
    (descent : Descent target bias (before ++ first.flatten) leaves passed leaf behind) :
    Descent target bias before (first ++ leaves) (first ++ passed) leaf behind := by
  obtain ⟨rfl, hne, hreached, hstops⟩ := descent
  -- what was passed is in reach: the last child passed, or `first` when there is none
  refine ⟨by simp, hne, fun _ => ?_, by simpa [append_assoc] using hstops⟩
  by_cases hpassed : passed.flatten = []
  · simpa [hpassed] using hfirst
  · simpa [append_assoc] using hreached hpassed

/-- Leaves that follow the tree of a descent do not change it. -/
theorem Descent.append {before : List T} {leaves passed rest : List (List T)} {leaf : List T}
    {behind : List (List T)} (descent : Descent target bias before leaves passed leaf behind) :
    Descent target bias before (leaves ++ rest) passed leaf (behind ++ rest) := by
  obtain ⟨rfl, hne, hreached, hstops⟩ := descent
  exact ⟨by simp, hne, hreached, hstops⟩

/-- The scan of a leaf, with its items paired with their summaries. -/
abbrev scanLeaf (exact : Bool) (target : SeekTarget D) (bias : Bias) (leaf : List T)
    (position : D) : D × Option (T × D) :=
  findItem exact target bias (leaf.zip (leaf.map Item.summary)) position

abbrev scanLeafWithPrev (exact : Bool) (target : SeekTarget D) (bias : Bias) (leaf : List T)
    (position : D) (prev : Option T) : D × Option (Option T × T × D) :=
  findItemWithPrev exact target bias (leaf.zip (leaf.map Item.summary)) position prev

/-- Where a tree ends out of reach, both searches are the scan of one leaf. -/
def Descends (target : SeekTarget D) (bias : Bias) (before : List T) (leaves : List (List T))
    (iterate : Bool → D → D × Option (T × D))
    (withPrev : Bool → D → Option T → Run (D × Option (Option T × T × D))) : Prop :=
  ∃ passed leaf behind, Descent target bias before leaves passed leaf behind ∧
    ∀ exact, iterate exact (measure D before) =
        scanLeaf exact target bias leaf (measure D (before ++ passed.flatten)) ∧
      withPrev exact (measure D before) before.getLast? =
        .ok (scanLeafWithPrev exact target bias leaf (measure D (before ++ passed.flatten))
          (before ++ passed.flatten).getLast?)

/-- The loop over the children finds the child to descend into. -/
theorem descends_forest : ∀ {cts : List (SumTree T S)} (before : List T),
    (∀ c ∈ cts, c.Wf h) →
    (∀ c ∈ cts, ∀ before : List T, reached target bias (measure D (before ++ c.toList)) = false →
      Descends target bias before c.leaves (fun exact => findIterate exact target bias c)
        (fun exact => findWithPrevIterate exact target bias c)) →
    reached target bias (measure D (before ++ toListForest cts)) = false → cts ≠ [] →
    Descends target bias before (leavesForest cts)
      (fun exact => findIterateForest exact target bias cts (cts.map summary))
      (fun exact => findWithPrevForest exact target bias cts (cts.map summary)) := by
  intro cts
  induction cts with
  | nil => intro before _ _ _ hne; exact absurd rfl hne
  | cons c cs ihcs =>
    intro before hw ih hend _
    have wf := hw c (by simp)
    have hchildEnd : Dimension.addSummary (measure D before) c.summary =
        measure D (before ++ c.toList) := by
      rw [wf.summary_eq, addSummary_itemsSum _ wf.toList_ne_nil, measure_append]
    cases hc : reached target bias (measure D (before ++ c.toList)) with
    | false =>
      obtain ⟨passed, leaf, behind, descent, hscan⟩ := ih c (by simp) before hc
      refine ⟨passed, leaf, behind ++ leavesForest cs, ?_, fun exact => ?_⟩
      · rw [leavesForest_cons]
        exact descent.append
      · simp only [map_cons, findIterateForest, findWithPrevForest, hchildEnd,
          targetInChild_eq, hc, Bool.not_false, if_true]
        exact hscan exact
    | true =>
      -- the last child ends where the row does, so a child is left
      have hne : cs ≠ [] := by
        rintro rfl
        rw [toListForest_cons, toListForest_nil, append_nil, hc] at hend
        exact Bool.noConfusion hend
      have hflat : c.leaves.flatten = c.toList := wf.flatten_leaves
      obtain ⟨passed, leaf, behind, descent, hscan⟩ := ihcs (before ++ c.toList)
        (fun b hb => hw b (by simp [hb])) (fun b hb => ih b (by simp [hb]))
        (by simpa [append_assoc] using hend) hne
      rw [← hflat] at descent hc
      refine ⟨c.leaves ++ passed, leaf, behind, ?_, fun exact => ?_⟩
      · rw [leavesForest_cons]
        exact descent.cons hc
      · obtain ⟨s, its, iss, hleaf, hlast⟩ := wf.rightmostLeaf
        have hlast' : c.last = .ok (before ++ c.toList).getLast? := by
          rw [SumTree.last, hleaf, getLast?_append_of_ne_nil _ wf.toList_ne_nil]
          simp [nodeItems, hlast]
        rw [hflat] at hc
        have hscan' := hscan exact
        simp only [map_cons, findIterateForest, findWithPrevForest, hchildEnd,
          targetInChild_eq, hc, Bool.not_true, Bool.false_eq_true, if_false, hlast',
          Exec.ok_bind, flatten_append, hflat, ← append_assoc]
        exact hscan'

theorem Wf.descends (wf : Wf h t) : ∀ before : List T,
    reached target bias (measure D (before ++ t.toList)) = false →
    Descends target bias before t.leaves (fun exact => findIterate exact target bias t)
      (fun exact => findWithPrevIterate exact target bias t) := by
  induction wf with
  | @leaf items ne le =>
    intro before hend
    refine ⟨[], items, [], ⟨by simp, ne, by simp, by simpa using hend⟩, fun exact => ?_⟩
    simp [findIterate, findWithPrevIterate]
  | @internal h cts ne le children ih =>
    intro before hend
    obtain ⟨passed, leaf, behind, descent, hscan⟩ := descends_forest before children ih hend ne
    refine ⟨passed, leaf, behind, by simpa using descent, fun exact => ?_⟩
    exact hscan exact

/-! ## `find` is a seek -/

/-- The scan of a leaf that ends out of reach stops at the first item that does. -/
theorem scanLeaf_stops : ∀ (leaf before : List T), leaf ≠ [] →
    reached target bias (measure D (before ++ leaf)) = false →
    ∃ mid x rest, leaf = mid ++ x :: rest ∧
      (mid ≠ [] → reached target bias (measure D (before ++ mid)) = true) ∧
      reached target bias (measure D (before ++ mid ++ [x])) = false ∧
      scanLeaf false target bias leaf (measure D before) =
        (measure D (before ++ mid), some (x, measure D (before ++ mid ++ [x]))) ∧
      scanLeafWithPrev false target bias leaf (measure D before) before.getLast? =
        (measure D (before ++ mid),
          some ((before ++ mid).getLast?, x, measure D (before ++ mid ++ [x]))) := by
  intro leaf
  induction leaf with
  | nil => intro before hne _; exact absurd rfl hne
  | cons x leaf ih =>
    intro before _ hend
    have hx : Dimension.addSummary (measure D before) (Item.summary x) =
        measure D (before ++ [x]) := (measure_concat before x).symm
    cases hfound : reached target bias (measure D (before ++ [x])) with
    | false =>
      refine ⟨[], x, leaf, rfl, by simp, by simpa using hfound, ?_, ?_⟩ <;>
        simp [scanLeaf, scanLeafWithPrev, findItem, findItemWithPrev, entryFound,
          targetInChild_eq, hx, hfound]
    | true =>
      have hne : leaf ≠ [] := by
        rintro rfl
        rw [hfound] at hend
        exact Bool.noConfusion hend
      obtain ⟨mid, y, rest, rfl, hmid, hy, hscan, hprev⟩ :=
        ih (before ++ [x]) hne (by simpa using hend)
      have happend : before ++ x :: mid = before ++ [x] ++ mid := by simp
      refine ⟨x :: mid, y, rest, rfl, fun _ => ?_, by rw [happend]; exact hy, ?_, ?_⟩
      · by_cases hnil : mid = []
        · rw [hnil]
          exact hfound
        · rw [happend]
          exact hmid hnil
      · rw [happend, ← hscan]
        simp [scanLeaf, findItem, entryFound, targetInChild_eq, hx, hfound]
      · rw [happend, ← hprev]
        simp [scanLeafWithPrev, findItemWithPrev, entryFound, targetInChild_eq, hx, hfound]

/-- The end of a tree with items is the measure of the items. -/
theorem WellFormed.treeEnd_eq (wf : t.WellFormed) (hne : t.toList ≠ []) :
    t.treeEnd D = measure D t.toList := by
  rcases wf with rfl | ⟨h, _, wf⟩
  · exact absurd rfl hne
  · rw [treeEnd, wf.summary_eq, addSummary_itemsSum _ hne]
    rfl

/-- A dimension whose zero the empty sum leaves alone. -/
theorem WellFormed.treeEnd_measure (wf : t.WellFormed)
    (hzero : Dimension.addSummary (Dimension.zero S) (Summary.zero : S) = (Dimension.zero S : D)) :
    t.treeEnd D = measure D t.toList := by
  by_cases hne : t.toList = []
  · obtain rfl := wf.eq_new ((isEmpty_iff_toList wf).mpr hne)
    exact hzero
  · exact wf.treeEnd_eq hne

/-- A cut of the items at which `find` may stop, and what it returns there. -/
structure Finds (t : SumTree T S) (target : SeekTarget D) (bias : Bias)
    (before after : List T) : Prop where
  items : t.toList = before ++ after
  reached : before ≠ [] → Gpui.reached target bias (measure D before) = true
  next : ∀ x ∈ after.head?, Gpui.reached target bias (measure D (before ++ [x])) = false
  find : t.find target bias = (measure D before, endOf (measure D before) after, after.head?)
  findWithPrev : t.findWithPrev target bias = .ok (measure D before,
    endOf (measure D before) after, after.head?.map fun x => (before.getLast?, x))

theorem WellFormed.finds (wf : t.WellFormed)
    (hzero : Dimension.addSummary (Dimension.zero S) (Summary.zero : S) = (Dimension.zero S : D))
    (target : SeekTarget D) (bias : Bias) : ∃ before after, t.Finds target bias before after := by
  have hend := wf.treeEnd_measure hzero
  cases hr : Gpui.reached target bias (measure D t.toList) with
  | true =>
    refine ⟨t.toList, [], by simp, fun _ => hr, by simp, ?_, ?_⟩
    · simp [SumTree.find, hend, hr, endOf]
    · simp [SumTree.findWithPrev, hend, hr, endOf]
  | false =>
    rcases wf with rfl | ⟨h, _, wf⟩
    · -- the leaf of an empty tree has nothing to scan
      refine ⟨[], [], by simp [new], by simp, by simp, ?_, ?_⟩
      · rw [SumTree.find, hend, hr]
        simp [new, findIterate, findItem, endOf]
      · rw [SumTree.findWithPrev, hend, hr]
        simp [new, findWithPrevIterate, findItemWithPrev, endOf]
    · obtain ⟨passed, leaf, behind, ⟨hsplit, hne, hreached, hstops⟩, hscan⟩ :=
        wf.descends [] hr
      obtain ⟨hiterate, hwithPrev⟩ := hscan false
      simp only [nil_append, measure_nil, getLast?_nil] at hreached hstops hiterate hwithPrev
      obtain ⟨mid, x, rest, rfl, hmid, hx, hfound, hfoundPrev⟩ := scanLeaf_stops leaf _ hne hstops
      rw [hfound, measure_concat] at hiterate
      rw [hfoundPrev, measure_concat] at hwithPrev
      refine ⟨passed.flatten ++ mid, x :: (rest ++ behind.flatten), ?_, ?_, ?_, ?_, ?_⟩
      · rw [← wf.flatten_leaves, hsplit]
        simp
      · intro hcut
        by_cases hnil : mid = []
        · subst hnil
          rw [append_nil] at hcut ⊢
          exact hreached hcut
        · exact hmid hnil
      · intro y hy
        obtain rfl : x = y := by simpa using hy
        exact hx
      · rw [SumTree.find, hend, hr, hiterate]
        simp [endOf]
      · rw [SumTree.findWithPrev, hend, hr, hwithPrev]
        simp [endOf]

end Descent

end SumTree

/-! ## `find` and the cursor -/

/-- An additive dimension adds nothing at its zero for an empty tree. -/
class AdditiveDimension (D S : Type) [Summary S] [Dimension D S] : Prop
    extends LawfulDimension D S where
  zero_add_zero : Dimension.addSummary (Dimension.zero S : D) (Summary.zero : S) = Dimension.zero S

instance {S : Type} [Summary S] [LawfulSummary S] : AdditiveDimension S S where
  zero_add_zero := LawfulSummary.zero_add _

instance {S : Type} [Summary S] : AdditiveDimension Unit S where
  zero_add_zero := rfl

instance {K : Type} : AdditiveDimension (MapKeyRef K) (MapKey K) where
  zero_add_zero := rfl

section Cut

variable [LawfulSummary S] [LawfulDimension D S] {t : SumTree T S} {target : SeekTarget D}
  {bias : Bias} {before after : List T}

/-- A monotone target leaves one cut to stop at. -/
theorem SumTree.Finds.before_eq (finds : t.Finds target bias before after)
    (mono : MonotoneTarget target t.toList) :
    reachedFrom target bias (Dimension.zero S) t.toList = before := by
  have h : reachedFrom target bias (measure D []) (before ++ after) = before :=
    reachedFrom_eq mono (by simpa using finds.items) finds.reached (by simpa using finds.next)
  rw [finds.items]
  exact h

/-- The cut of a seek is the cut of `find`. -/
theorem SumTree.Finds.of_stopped {c : Cursor T S D} {mid rest : List T}
    (finds : t.Finds target bias before after) (mono : MonotoneTarget target t.toList)
    (stopped : c.Stopped Measured target bias t [] t.toList mid rest) :
    mid = before ∧ rest = after := by
  have hmid := stopped.mid_eq mono
  rw [measure_nil, finds.before_eq mono] at hmid
  have hitems := finds.items.symm.trans stopped.split
  rw [hmid] at hitems
  exact ⟨hmid.symm, (append_cancel_left hitems).symm⟩

end Cut

/-- **`find` is a seek**: whenever the cursor's seek to a monotone target returns, as it
    does on every tree of at most 15 levels, `find` and `find_with_prev` return what the
    cursor then shows. -/
theorem find_eq_seek [LawfulSummary S] [AdditiveDimension D S] {t : SumTree T S}
    (wf : t.WellFormed) {target : SeekTarget D} (mono : MonotoneTarget target t.toList)
    (hzero : target (Dimension.zero S) ≠ .lt) (bias : Bias) :
    (∀ c found, (Cursor.new t).seek target bias = .ok (c, found) →
      ∃ e item prev, c.«end» = .ok e ∧ c.item = .ok item ∧ c.prevItem = .ok prev ∧
        t.find target bias = (c.start, e, item) ∧
        t.findWithPrev target bias = .ok (c.start, e, item.map fun x => (prev, x))) ∧
      (t.height ≤ 15 → ∃ c found, (Cursor.new t).seek target bias = .ok (c, found)) := by
  constructor
  · intro c found hseek
    obtain ⟨mid, rest, stopped, -⟩ := (Cursor.seek_spec Tracks.measured wf rfl).of_ok hseek
    obtain ⟨before, after, finds⟩ := wf.finds AdditiveDimension.zero_add_zero target bias
    obtain ⟨rfl, rfl⟩ := finds.of_stopped mono stopped
    have pos : c.At Measured t mid rest := stopped.pos
    have hstart : c.start = measure D mid := pos.position
    refine ⟨_, _, _, pos.end_eq, pos.item_eq, pos.prevItem_eq wf, ?_, ?_⟩
    · rw [finds.find, hstart]
      rw [show c.position = measure D mid from hstart]
    · rw [finds.findWithPrev, hstart]
      rw [show c.position = measure D mid from hstart]
  · intro hle
    obtain ⟨c, found, _, _, hseek, -⟩ :=
      Cursor.seek_returns (c := Cursor.new t) target bias wf hle rfl hzero
    exact ⟨c, found, hseek⟩

/-- The first item of the second leaf is found, with the last one of the first leaf. -/
theorem find_eq_seek_integersTree :
    ∃ c found e item prev, (Cursor.new integersTree).seek (atCount 13) .left = .ok (c, found) ∧
      c.«end» = .ok e ∧ c.item = .ok item ∧ c.prevItem = .ok prev ∧
      integersTree.find (atCount 13) .left = (c.start, e, item) ∧
      integersTree.findWithPrev (atCount 13) .left = .ok (c.start, e, item.map fun x => (prev, x)) ∧
      (prev, item) = (some 23, some 0) := by
  have hmono : MonotoneTarget (atCount 13) integersTree.toList := by decide +kernel
  obtain ⟨hfind, hreturns⟩ :=
    find_eq_seek reachable_integersTree.wellFormed hmono (by decide) .left
  obtain ⟨c, found, hseek⟩ := hreturns (by decide)
  obtain ⟨e, item, prev, hend, hitem, hprev, hsame, hsame'⟩ := hfind c found hseek
  refine ⟨c, found, e, item, prev, hseek, hend, hitem, hprev, hsame, hsame', ?_⟩
  cases hseek.symm.trans (show _ = .ok (_, _) from rfl)
  exact Prod.ext (Except.ok.inj hprev).symm (Except.ok.inj hitem).symm

/-- On a deep tree the cursor overflows its stack, and there is nothing to return. -/
theorem find_without_seek :
    ∃ t : SumTree (MapEntry Nat Unit) (MapKey Nat), Reachable t ∧
      MonotoneTarget (fun _ : Unit => .eq) t.toList ∧
      ¬ ∃ c found, (Cursor.new t : Cursor _ _ Unit).seek (fun _ => .eq) .left =
        .ok (c, found) := by
  obtain ⟨t, reach, hdeep⟩ := exists_deep (⟨3, ()⟩ : MapEntry Nat Unit)
  refine ⟨t, reach, fun _ _ _ _ => ⟨id, id⟩, ?_⟩
  rintro ⟨c, found, hseek⟩
  obtain ⟨e, he⟩ := Cursor.seek_deep (D := Unit) (fun _ => .eq) .left reach.wellFormed hdeep
    rfl
  rw [he] at hseek
  cases hseek

end Gpui
