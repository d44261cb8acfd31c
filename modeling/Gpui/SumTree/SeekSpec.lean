import Gpui.SumTree.CursorPath

/-! # SumTree: seeking

    `seek_internal` leaves the cursor at a cut of the items ahead of it: those
    passed were collected by the aggregate, the last of them ends in reach of
    the target, and the next one does not. -/

set_option linter.unusedSectionVars false

namespace Gpui

open List

open Exec (Returns Ensures Next loop)

variable {T S D A : Type} [Summary S] [Item T S] [Dimension D S] [SeekAggregate A T S]

/-! ## Aggregates -/

/-- `R n xs a`: after `n` trees and leaves the aggregate `a` holds the items `xs`.
    `L n xs ys a`: it is in a leaf of which it saw the items `ys` besides.  `E n`
    are the errors that may stop it then; trees are at most `height` high. -/
structure Aggregates (R : Nat → List T → A → Prop) (L : Nat → List T → List T → A → Prop)
    (E : Nat → Panic → Prop) (height : Nat) : Prop where
  beginLeaf : ∀ {n xs a}, R n xs a → L n xs [] (SeekAggregate.beginLeaf T S a)
  pushItem : ∀ {n xs ys a} (x : T), L n xs ys a → ys.length < nodeCapacity →
    Ensures (L n xs (ys ++ [x])) (E n) (SeekAggregate.pushItem a x (Item.summary x))
  endLeaf : ∀ {n xs ys a}, L n xs ys a → ys.length ≤ nodeCapacity →
    Ensures (R (n + 1) (xs ++ ys)) (E n) (SeekAggregate.endLeaf T S a)
  pushTree : ∀ {n xs a h} {t : SumTree T S}, R n xs a → t.Wf h → h ≤ height →
    Ensures (R (n + 1) (xs ++ t.toList)) (E n) (SeekAggregate.pushTree a t t.summary)

namespace Cursor

section Scan

variable {P : List T → D → Prop} {R : Nat → List T → A → Prop}
  {L : Nat → List T → List T → A → Prop} {E : Nat → Panic → Prop} {height : Nat}
  {target : SeekTarget D} {bias : Bias}

/-! ## The two scans -/

/-- What a scan over children leaves: it passed `passed`, and `ahead` is left. -/
structure ChildrenScanned (P : List T → D → Prop) (R : Nat → List T → A → Prop)
    (target : SeekTarget D) (bias : Bias) (n : Nat) (xs before : List T)
    (entry : StackEntry T S D) (start : D) (passed ahead : List (SumTree T S))
    (r : Option (SumTree T S) × StackEntry T S D × D × A) : Prop where
  child : r.1 = ahead.head?
  tree : r.2.1.tree = entry.tree
  index : r.2.1.index = entry.index + passed.length
  entryPosition : P before entry.position →
    P (before ++ SumTree.toListForest passed) r.2.1.position
  position : P (before ++ SumTree.toListForest passed) r.2.2.1
  collected : R (n + passed.length) (xs ++ SumTree.toListForest passed) r.2.2.2
  reached : passed ≠ [] → Gpui.reached target bias r.2.2.1 = true
  unmoved : passed = [] → r.2.2.1 = start
  stopped : ∀ c ∈ ahead.head?,
    Gpui.reached target bias (Dimension.addSummary r.2.2.1 c.summary) = false

theorem scanChildren_spec (tr : Tracks P) (ag : Aggregates R L E height) {h : Nat}
    (hh : h ≤ height) {cts : List (SumTree T S)} (hw : ∀ c ∈ cts, c.Wf h) :
    ∀ {n : Nat} {xs before : List T} {entry : StackEntry T S D} {position : D} {a : A},
      P before position → R n xs a →
      Ensures (fun r => ∃ passed ahead, cts = passed ++ ahead ∧
          ChildrenScanned P R target bias n xs before entry position passed ahead r)
        (fun e => ∃ k, k < n + cts.length ∧ E k e)
        (scanChildren target bias (cts.zip (cts.map SumTree.summary)) entry position a) := by
  induction cts with
  | nil =>
    intro n xs before entry position a hp hr
    exact ⟨[], [], rfl, rfl, rfl, rfl, by simp, by simpa using hp, by simpa using hr, by simp,
      fun _ => rfl, by simp⟩
  | cons c cs ih =>
    intro n xs before entry position a hp hr
    have hc := hw c (by simp)
    simp only [map_cons, zip_cons_cons, scanChildren]
    split
    · next hreached =>
      have hpush := (ag.pushTree hr hc hh).imp (fun _ h => h)
        (fun e (he : E n e) => (⟨n, by simp, he⟩ : ∃ k, k < n + (c :: cs).length ∧ E k e))
      refine hpush.bind (fun a' hr' => ?_)
      refine (ih (fun b hb => hw b (by simp [hb])) (tr.tree hc hp) hr').imp ?_ ?_
      · rintro r ⟨passed, ahead, rfl, scanned⟩
        refine ⟨c :: passed, ahead, rfl, scanned.child, scanned.tree, ?_, fun _ => ?_, ?_, ?_,
          fun _ => ?_, by simp, scanned.stopped⟩
        · rw [scanned.index]
          simp only [length_cons]
          omega
        · simpa [append_assoc] using scanned.entryPosition (tr.tree hc hp)
        · simpa [append_assoc] using scanned.position
        · have hag := scanned.collected
          rw [show n + 1 + passed.length = n + (c :: passed).length by
            simp only [length_cons]; omega] at hag
          simpa [append_assoc] using hag
        · by_cases hpassed : passed = []
          · rw [scanned.unmoved hpassed]
            exact hreached
          · exact scanned.reached hpassed
      · rintro e ⟨k, hk, he⟩
        exact ⟨k, by simp only [length_cons] at hk ⊢; omega, he⟩
    · next hreached =>
      exact ⟨[], c :: cs, rfl, rfl, rfl, rfl, by simp, by simpa using hp, by simpa using hr,
        by simp, fun _ => rfl, by simpa using hreached⟩

/-- What a scan over the items of a leaf leaves. -/
structure ItemsScanned (P : List T → D → Prop) (L : Nat → List T → List T → A → Prop)
    (target : SeekTarget D) (bias : Bias) (n : Nat) (xs ys before : List T)
    (entry : StackEntry T S D) (start : D) (passed ahead : List T)
    (r : Bool × StackEntry T S D × D × A) : Prop where
  stop : r.1 = !ahead.isEmpty
  tree : r.2.1.tree = entry.tree
  index : r.2.1.index = entry.index + passed.length
  position : P (before ++ passed) r.2.2.1
  collected : L n xs (ys ++ passed) r.2.2.2
  reached : passed ≠ [] → Gpui.reached target bias r.2.2.1 = true
  unmoved : passed = [] → r.2.2.1 = start
  stopped : ∀ x ∈ ahead.head?,
    Gpui.reached target bias (Dimension.addSummary r.2.2.1 (Item.summary x : S)) = false

theorem scanItems_spec (tr : Tracks P) (ag : Aggregates R L E height) {its : List T} :
    ∀ {n : Nat} {xs ys before : List T} {entry : StackEntry T S D} {position : D} {a : A},
      P before position → L n xs ys a → ys.length + its.length ≤ nodeCapacity →
      Ensures (fun r => ∃ passed ahead, its = passed ++ ahead ∧
          ItemsScanned P L target bias n xs ys before entry position passed ahead r) (E n)
        (scanItems target bias (its.zip (its.map Item.summary)) entry position a) := by
  induction its with
  | nil =>
    intro n xs ys before entry position a hp hl _
    exact ⟨[], [], rfl, rfl, rfl, rfl, by simpa using hp, by simpa using hl, by simp,
      fun _ => rfl, by simp⟩
  | cons x rest ih =>
    intro n xs ys before entry position a hp hl hlen
    rw [length_cons] at hlen
    simp only [map_cons, zip_cons_cons, scanItems]
    split
    · next hreached =>
      refine (ag.pushItem x hl (by omega)).bind (fun a' hl' => ?_)
      have hroom : (ys ++ [x]).length + rest.length ≤ nodeCapacity := by
        rw [length_append, length_singleton]
        omega
      refine (ih (tr.item x hp) hl' hroom).imp ?_ (fun _ h => h)
      rintro r ⟨passed, ahead, rfl, scanned⟩
      refine ⟨x :: passed, ahead, rfl, scanned.stop, scanned.tree, ?_, ?_, ?_, fun _ => ?_,
        by simp, scanned.stopped⟩
      · rw [scanned.index]
        simp only [length_cons]
        omega
      · simpa [append_assoc] using scanned.position
      · simpa [append_assoc] using scanned.collected
      · by_cases hpassed : passed = []
        · rw [scanned.unmoved hpassed]
          exact hreached
        · exact scanned.reached hpassed
    · next hreached =>
      exact ⟨[], x :: rest, rfl, rfl, rfl, rfl, by simpa using hp, by simpa using hl, by simp,
        fun _ => rfl, by simpa using hreached⟩

/-! ## One pass -/

/-- The top of the stack ends out of reach of the target, with items left in it. -/
def Tight (P : List T → D → Prop) (target : SeekTarget D) (bias : Bias)
    (before : List T) : List (StackEntry T S D) → Prop
  | [] => False
  | e :: _ => ∃ left right d, Cut e.tree e.index left right ∧ right ≠ [] ∧
      P (before ++ right) d ∧ Gpui.reached target bias d = false

/-- The state of a seek that started at the top of `depth` stack entries and has
    passed the items `mid`.  Where items determine positions the seek climbs and
    then descends, which bounds the number `n` of trees and leaves collected. -/
structure Seeking (P : List T → D → Prop) (R : Nat → List T → A → Prop)
    (target : SeekTarget D) (bias : Bias) (root : SumTree T S) (depth : Nat)
    (start ahead : List T) (n : Nat) (mid after : List T) (st : SeekState T S D A) : Prop where
  split : ahead = mid ++ after
  walk : Walk P root st.stack (!st.ascending) (start ++ mid) after
  position : P (start ++ mid) st.position
  collected : R n mid st.aggregate
  reached : mid ≠ [] → Gpui.reached target bias st.position = true
  phase : Determines P → n + 13 * st.stack.length ≤ 13 * depth ∨
    n ≤ 13 * (depth + st.stack.length) ∧ st.ascending = false ∧
      Tight P target bias (start ++ mid) st.stack

/-- The number of trees and leaves a seek collects at most. -/
def collectBound (height : Nat) : Nat := 26 * (height + 2)

/-- The state a seek ends in. -/
structure Sought (P : List T → D → Prop) (R : Nat → List T → A → Prop)
    (target : SeekTarget D) (bias : Bias) (root : SumTree T S)
    (start ahead : List T) (n : Nat) (mid after : List T) (st : SeekState T S D A) : Prop where
  split : ahead = mid ++ after
  resting : Resting P root st.stack (start ++ mid) after
  position : P (start ++ mid) st.position
  collected : R n mid st.aggregate
  few : Determines P → n ≤ collectBound root.height
  reached : mid ≠ [] → Gpui.reached target bias st.position = true
  stopped : ∀ x ∈ after.head?,
    Gpui.reached target bias (Dimension.addSummary st.position (Item.summary x : S)) = false

/-- How a seek can fail. -/
def SeekError (P : List T → D → Prop) (E : Nat → Panic → Prop) (height : Nat)
    (e : Panic) : Prop :=
  (e = .stackFull ∧ 15 < height) ∨ ∃ k, E k e ∧ (Determines P → k < collectBound height)

/-- The passes that leave the loop running. -/
def Kept (P : List T → D → Prop) (R : Nat → List T → A → Prop) (target : SeekTarget D)
    (bias : Bias) (root : SumTree T S) (depth : Nat) (start ahead : List T)
    (st : SeekState T S D A) : Prop :=
  ∃ n mid after, Seeking P R target bias root depth start ahead n mid after st

/-- What a pass of a seek does. -/
def SeekPass (P : List T → D → Prop) (R : Nat → List T → A → Prop) (target : SeekTarget D)
    (bias : Bias) (root : SumTree T S) (depth : Nat) (start ahead : List T)
    (st : SeekState T S D A) : Next (SeekState T S D A) (SeekState T S D A) → Prop :=
  Exec.Pass (Kept P R target bias root depth start ahead)
    (fun st => walkCost st.stack (!st.ascending)) (walkCost st.stack (!st.ascending))
    (fun st => ∃ n mid after, Sought P R target bias root start ahead n mid after st)

variable {mid start ahead after before : List T} {root : SumTree T S} {depth n : Nat}
variable {st : SeekState T S D A} {e : StackEntry T S D} {rest : List (StackEntry T S D)} {s : S}
variable {c : Cursor T S D} {a : A}

/-- A cursor may only have to move past an item for its aggregate to be in reach. -/
theorem reached_append {d d' : D} {passed : List T}
    (hmid : mid ≠ [] → Gpui.reached target bias d = true)
    (hpassed : passed ≠ [] → Gpui.reached target bias d' = true) (hunmoved : passed = [] → d' = d) :
    mid ++ passed ≠ [] → Gpui.reached target bias d' = true := by
  intro hne
  by_cases hp : passed = []
  · rw [hunmoved hp]
    exact hmid (by simpa [hp] using hne)
  · exact hpassed hp

/-- The count stays in its bound whatever a pass does. -/
theorem Seeking.count_le
    (seeking : Seeking P R target bias root depth start ahead n mid after st)
    (det : Determines P) : n ≤ 13 * (depth + st.stack.length) := by
  cases seeking.phase det with
  | inl hclimbs => omega
  | inr hdescends => exact hdescends.1

/-- A seek that passes all that is left in the top of the stack is still climbing: where it
    descends, the target is out of reach of some item in there. -/
theorem Seeking.climbs
    (seeking : Seeking P R target bias root depth start ahead n mid after st) (det : Determines P)
    (hstack : st.stack = e :: rest)
    (hpassed : st.ascending = false → ∀ left right, Cut e.tree e.index left right → right ≠ [] →
      ∃ d, P (start ++ mid ++ right) d ∧ Gpui.reached target bias d = true) :
    n + 13 * (rest.length + 1) ≤ 13 * depth := by
  have hphase := seeking.phase det
  rw [hstack] at hphase
  rcases hphase with hclimbs | ⟨-, hasc, left, right, d, cut, hne, hd, hnot⟩
  · exact hclimbs
  · obtain ⟨d', hd', hreached⟩ := hpassed hasc left right cut hne
    rw [det hd hd', hreached] at hnot
    exact Bool.noConfusion hnot

/-- A pass inside an internal node scans the children ahead. -/
theorem seekStep_eq_scanChildren (target : SeekTarget D) (bias : Bias)
    (rest : List (StackEntry T S D)) {hh : Nat} {l r : List (SumTree T S)}
    (position : D) {ascending : Bool} (a : A)
    (htree : e.tree = .internal hh s ((l ++ r).map SumTree.summary) (l ++ r))
    (hindex : (if !ascending then e.index else e.index + 1) = l.length) :
    ∃ entry : StackEntry T S D, entry.tree = e.tree ∧ entry.index = l.length ∧
      entry.position = (if ascending then position else e.position) ∧
      seekStep target bias ⟨e :: rest, position, ascending, a⟩ = (do
        let (child, entry, position, aggregate) ← scanChildren target bias
          (r.zip (r.map SumTree.summary)) entry position a
        match child with
        | some childTree =>
          let stack ← pushEntry (entry :: rest)
            { tree := childTree, index := 0, position := position }
          pure (.again ⟨stack, position, false, aggregate⟩)
        | none => pure (.again ⟨rest, position, true, aggregate⟩)) := by
  obtain ⟨tree, index, entryPosition⟩ := e
  obtain rfl : tree = _ := htree
  have hdrop : ((l ++ r).map SumTree.summary).drop l.length = r.map SumTree.summary := by
    rw [← map_drop, drop_left]
  cases ascending with
  | true =>
    replace hindex : index + 1 = l.length := hindex
    refine ⟨⟨_, index + 1, position⟩, rfl, hindex, rfl, ?_⟩
    simp only [seekStep, if_true, hindex, drop_left, hdrop]
    exact if_neg (by simp)
  | false =>
    obtain rfl : index = l.length := hindex
    refine ⟨⟨_, l.length, entryPosition⟩, rfl, rfl, rfl, ?_⟩
    simp only [seekStep, drop_left, hdrop, Bool.false_eq_true, if_false]
    exact if_neg (by simp)

theorem seekStep_internal (tr : Tracks P) (ag : Aggregates R L E root.height)
    (hdepth : depth ≤ root.height + 1)
    (seeking : Seeking P R target bias root depth start ahead n mid after st)
    (hstack : st.stack = e :: rest) {hh : Nat} {css : List S}
    {cts : List (SumTree T S)} (htree : e.tree = .internal hh s css cts) :
    Ensures (SeekPass P R target bias root depth start ahead st)
      (SeekError P E root.height) (seekStep target bias st) := by
  obtain ⟨stack, position, ascending, a⟩ := st
  obtain rfl : stack = e :: rest := hstack
  have hcount : Determines P → n ≤ 13 * (depth + (rest.length + 1)) := seeking.count_le
  have hclimbs := fun det => seeking.climbs det rfl
  obtain ⟨hsplit, walk, hposition, hcollected, hreached, -⟩ := seeking
  dsimp only at walk hposition hcollected hreached hclimbs
  obtain ⟨h, pre, post, l, r, rfl, rfl, rfl, hw, hle, path, hidx, hbefore, hafter, hentry⟩ :=
    walk.internal_inv htree
  have hlen := path.length
  have hrw : ∀ c ∈ r, c.Wf h := fun c hc => hw c (mem_append_right _ hc)
  obtain ⟨entry, htree', hidx', hpos', hstep⟩ := seekStep_eq_scanChildren target bias rest
    position a htree hidx
  have hentry' : P (start ++ mid) entry.position := by
    rw [hpos']
    cases ascending with
    | true => exact hposition
    | false => exact hentry rfl
  have hr12 : r.length ≤ 12 := by
    have : l.length + r.length ≤ 12 := by simpa [nodeCapacity, treeBase] using hle
    omega
  rw [hstep]
  refine ((scanChildren_spec tr ag (by omega) hrw hposition hcollected).imp (fun _ h => h)
    ?_).bind ?_
  · rintro e ⟨k, hk, he⟩
    refine .inr ⟨k, he, fun det => ?_⟩
    have := hcount det
    simp only [collectBound]
    omega
  rintro ⟨child, entry', position', a'⟩ ⟨passed, ahead', rfl, scanned⟩
  obtain ⟨hchild, htree'', hidx'', hpos'', hposition', hcollected', hreached', hunmoved, hstop⟩ :=
    scanned
  have hmid : mid ++ SumTree.toListForest passed ≠ [] →
      Gpui.reached target bias position' = true := reached_append hreached
    (fun hne => hreached' (by rintro rfl; simp at hne))
    (fun hnil => hunmoved (by
      by_contra hne
      exact SumTree.toListForest_ne_nil (fun c hc => hrw c (by simp [hc])) hne hnil))
  have hpassed12 : passed.length ≤ 12 := by
    rw [length_append] at hr12
    omega
  cases ahead' with
  | nil =>
    obtain rfl : child = none := hchild
    have hbefore' : start ++ (mid ++ SumTree.toListForest passed) =
        pre ++ SumTree.toListForest (l ++ (passed ++ [])) := by
      rw [← append_assoc, hbefore]
      simp [append_assoc]
    refine ⟨⟨n + passed.length, mid ++ SumTree.toListForest passed, post, ?_, ?_, ?_, hcollected',
      hmid, ?_⟩, ?_⟩
    · rw [hsplit, hafter]
      simp [append_assoc]
    · rw [hbefore']
      exact path.leave
    · rw [← append_assoc]
      exact hposition'
    · intro det
      -- the children ahead were all passed
      have hcount' := hclimbs det fun hasc left right cut hne => by
        rw [htree] at cut
        obtain ⟨l', r', hcts, hl', rfl, rfl⟩ := cut.internal_inv
        simp only [hasc, Bool.not_false, if_true] at hidx
        obtain ⟨rfl, rfl⟩ := append_inj hcts (by omega)
        rw [append_nil] at hne ⊢
        have hpassed : passed ≠ [] := by
          rintro rfl
          simp at hne
        exact ⟨position', hposition', hreached' hpassed⟩
      exact .inl (by dsimp only; omega)
    · rw [walkCost_internal htree hidx]
      show walkCost rest false < _
      rw [walkCost_false]
      omega
  | cons c behind =>
    obtain rfl : child = some c := hchild
    have hcts : l ++ (passed ++ c :: behind) = (l ++ passed) ++ c :: behind := by simp
    have hpre : pre ++ SumTree.toListForest (l ++ passed) =
        start ++ (mid ++ SumTree.toListForest passed) := by
      rw [SumTree.toListForest_append, ← append_assoc, ← hbefore, append_assoc]
    have hc : c.Wf h := hrw c (by simp)
    have htree3 : entry'.tree = .internal (h + 1) s
        ((l ++ (passed ++ c :: behind)).map SumTree.summary) (l ++ (passed ++ c :: behind)) := by
      rw [htree'', htree', htree]
    have hidx3 : entry'.index = l.length + passed.length := by rw [hidx'', hidx']
    have hchildPath : Path P root (entry' :: rest) h (pre ++ SumTree.toListForest (l ++ passed)) c
        (SumTree.toListForest behind ++ post) := by
      have hpath := path
      rw [hcts] at hpath
      refine .child hpath (by rw [htree3, hcts]) (by rw [hidx3, length_append]) ?_
      rw [hpre, ← append_assoc]
      exact hpos'' hentry'
    refine ((hchildPath.pushEntry_spec _).imp (fun _ h => h) (fun e he => .inl he)).bind ?_
    rintro _ rfl
    refine ⟨⟨n + passed.length, mid ++ SumTree.toListForest passed,
      c.toList ++ (SumTree.toListForest behind ++ post), ?_, ?_, ?_, hcollected', hmid, ?_⟩, ?_⟩
    · rw [hsplit, hafter]
      simp [append_assoc]
    · rw [← hpre]
      refine hchildPath.enter ?_
      rw [hpre, ← append_assoc]
      exact hposition'
    · rw [← append_assoc]
      exact hposition'
    · intro det
      have := hcount det
      refine .inr ⟨by simp only [length_cons]; omega, rfl, [], c.toList,
        Dimension.addSummary position' c.summary, Cut.zero c, hc.toList_ne_nil, ?_,
        hstop c (by simp)⟩
      rw [← append_assoc]
      exact tr.tree hc hposition'
    · exact walkCost_descend htree hidx htree3 hidx3

/-- A pass inside a leaf scans the items ahead. -/
theorem seekStep_eq_scanItems (target : SeekTarget D) (bias : Bias)
    (rest : List (StackEntry T S D)) {l r : List T} (position : D) (ascending : Bool)
    (a : A) (htree : e.tree = .leaf s (l ++ r) ((l ++ r).map Item.summary))
    (hindex : e.index = l.length) :
    seekStep target bias ⟨e :: rest, position, ascending, a⟩ = (do
      let (stopped, entry, position, aggregate) ← scanItems target bias
        (r.zip (r.map Item.summary)) e position (SeekAggregate.beginLeaf T S a)
      let aggregate ← SeekAggregate.endLeaf T S aggregate
      if stopped then pure (.done ⟨entry :: rest, position, ascending, aggregate⟩)
      else pure (.again ⟨rest, position, true, aggregate⟩)) := by
  obtain ⟨tree, index, entryPosition⟩ := e
  obtain rfl : tree = _ := htree
  obtain rfl : index = l.length := hindex
  have hdrop : ((l ++ r).map (Item.summary : T → S)).drop l.length = r.map Item.summary := by
    rw [← map_drop, drop_left]
  simp only [seekStep, drop_left, hdrop]
  rw [if_neg (by simp)]

section

variable (tr : Tracks P) (ag : Aggregates R L E root.height) (hdepth : depth ≤ root.height + 1)
  (seeking : Seeking P R target bias root depth start ahead n mid after st)
include tr ag hdepth seeking

theorem seekStep_leaf (hstack : st.stack = e :: rest) {its : List T} {iss : List S}
    (htree : e.tree = .leaf s its iss) :
    Ensures (SeekPass P R target bias root depth start ahead st)
      (SeekError P E root.height) (seekStep target bias st) := by
  obtain ⟨stack, position, ascending, a⟩ := st
  obtain rfl : stack = e :: rest := hstack
  have hcount : Determines P → n ≤ 13 * (depth + (rest.length + 1)) := seeking.count_le
  have hclimbs := fun det => seeking.climbs det rfl
  obtain ⟨hsplit, walk, hposition, hcollected, hreached, -⟩ := seeking
  obtain ⟨pre, post, l, r, hasc, rfl, rfl, hle, path, hidx, hbefore, hafter⟩ :=
    walk.leaf_inv htree
  have hlen := path.length
  have hroom : r.length ≤ nodeCapacity := by
    rw [length_append] at hle
    omega
  have herror : ∀ e, E n e → SeekError P E root.height e := by
    intro e he
    refine .inr ⟨n, he, fun det => ?_⟩
    have := hcount det
    simp only [collectBound]
    omega
  rw [seekStep_eq_scanItems target bias rest position ascending a htree hidx]
  refine ((scanItems_spec tr ag hposition (ag.beginLeaf hcollected)
    (by simpa using hroom)).imp (fun _ h => h) herror).bind ?_
  rintro ⟨stopped, entry', position', a'⟩ ⟨passed, ahead', rfl, scanned⟩
  obtain ⟨hstopped, htree', hidx', hposition', hcollected', hreached', hunmoved, hstop⟩ := scanned
  have hmid := reached_append hreached hreached' hunmoved
  rw [length_append] at hroom
  refine ((ag.endLeaf hcollected' (by simpa using by omega)).imp (fun _ h => h) herror).bind ?_
  intro a'' hcollected''
  cases ahead' with
  | nil =>
    obtain rfl : stopped = false := hstopped
    refine ⟨⟨n + 1, mid ++ passed, post, ?_, ?_, ?_, hcollected'', hmid, ?_⟩, ?_⟩
    · rw [hsplit, hafter]
      simp [append_assoc]
    · rw [← append_assoc, hbefore]
      simpa [append_assoc] using path.leave
    · rw [← append_assoc]
      exact hposition'
    · intro det
      -- the items ahead were all passed
      have hcount' := hclimbs det fun _ left right cut hne => by
        rw [htree] at cut
        obtain ⟨l', r', hits, hl', rfl, rfl⟩ := cut.leaf_inv
        obtain ⟨rfl, rfl⟩ := append_inj hits (by omega)
        rw [append_nil] at hne ⊢
        exact ⟨position', hposition', hreached' hne⟩
      exact .inl (by dsimp only; omega)
    · rw [walkCost_leaf htree]
      show walkCost rest false < _
      rw [walkCost_false]
      omega
  | cons x behind =>
    obtain rfl : stopped = true := hstopped
    refine ⟨n + 1, mid ++ passed, x :: (behind ++ post), ?_, ?_, ?_, hcollected'', ?_, hmid, ?_⟩
    · rw [hsplit, hafter]
      simp [append_assoc]
    · rw [← append_assoc, hbefore, append_assoc]
      have hits : l ++ (passed ++ x :: behind) = (l ++ passed) ++ x :: behind := by simp
      rw [hits] at path htree
      exact .item path (htree'.trans htree) (by rw [hidx', hidx, length_append])
    · rw [← append_assoc]
      exact hposition'
    · intro det
      have hlt := hcount det
      simp only [collectBound]
      omega
    · intro y hy
      exact hstop y (by simpa using hy)

/-- A seek keeps its state until it ends at a cut. -/
theorem seekLoop_spec :
    Ensures (fun st' => ∃ n mid after, Sought P R target bias root start ahead n mid after st')
      (SeekError P E root.height) (loop .loopBound (seekStep target bias) root.size st) := by
  refine Exec.loop_ensures (Kept P R target bias root depth start ahead)
    (fun st => walkCost st.stack (!st.ascending)) ?_ _ _ ⟨n, mid, after, seeking⟩
    seeking.walk.cost_lt
  rintro ⟨stack, position, ascending, a⟩ ⟨n, mid, after, seeking⟩
  match stack with
  | [] =>
    have hwalk := seeking.walk
    generalize hbefore : start ++ mid = before at hwalk
    cases hwalk with
    | finished =>
      refine ⟨n, mid, [], seeking.split, ?_, seeking.position, seeking.collected, ?_,
        seeking.reached, by simp⟩
      · rw [hbefore]
        exact .finished
      · intro det
        have hphase := seeking.phase det
        simp only [length_nil] at hphase
        simp only [collectBound]
        omega
  | e :: rest =>
    match htree : e.tree with
    | .internal hh s css cts => exact seekStep_internal tr ag hdepth seeking rfl htree
    | .leaf s its iss => exact seekStep_leaf tr ag hdepth seeking rfl htree

end

/-! ## `seek_internal` -/

/-- A cursor that a seek can start from: a fresh one, or one that stands on a cut. -/
def Standing (P : List T → D → Prop) (root : SumTree T S) (before after : List T)
    (c : Cursor T S D) : Prop :=
  (c = Cursor.new root ∧ before = [] ∧ after = root.toList) ∨ c.At P root before after

theorem Standing.position (tr : Tracks P) (standing : Standing P root before after c) :
    P before c.position := by
  rcases standing with ⟨rfl, rfl, rfl⟩ | pos
  · exact tr.start
  · exact pos.position

/-- The cursor `c` has stopped behind the items `mid` of those ahead: the target
    was in reach of the last of them, and is not in reach of the next item. -/
structure Stopped (P : List T → D → Prop) (target : SeekTarget D) (bias : Bias)
    (root : SumTree T S) (before ahead mid after : List T) (c : Cursor T S D) : Prop where
  split : ahead = mid ++ after
  pos : c.At P root (before ++ mid) after
  reached : mid ≠ [] → Gpui.reached target bias c.position = true
  next : ∀ x ∈ after.head?,
    Gpui.reached target bias (Dimension.addSummary c.position (Item.summary x : S)) = false

/-- Whether a seek that has stopped met its target. -/
def metTarget (target : SeekTarget D) (bias : Bias) (c : Cursor T S D) (after : List T) : Bool :=
  target (if bias = .left then endOf c.position after else c.position) == .eq

/-- What a seek returns. -/
structure Landed (P : List T → D → Prop) (R : Nat → List T → A → Prop)
    (target : SeekTarget D) (bias : Bias) (root : SumTree T S) (before ahead : List T)
    (n : Nat) (mid after : List T) (r : Cursor T S D × A × Bool) : Prop where
  stopped : Stopped P target bias root before ahead mid after r.1
  collected : R n mid r.2.1
  few : Determines P → n ≤ collectBound root.height
  found : r.2.2 = metTarget target bias r.1 after

/-- Seeking an empty tree ends at once. -/
theorem seekLoop_new (tr : Tracks P) (ag : Aggregates R L E height) (collected : R 0 [] a) (p : D) :
    Ensures (fun st' => Sought P R target bias (.new : SumTree T S) [] [] 1 [] [] st')
      (SeekError P E 0)
      (loop .loopBound (seekStep target bias) (SumTree.new : SumTree T S).size
        ⟨[⟨.new, 0, p⟩], Dimension.zero S, false, a⟩) := by
  have hstep := seekStep_eq_scanItems target bias (e := ⟨(.new : SumTree T S), 0, p⟩) (l := [])
    (r := []) [] (Dimension.zero S) false a rfl rfl
  have hleaf := ag.endLeaf (ag.beginLeaf collected) (by simp)
  simp only [SumTree.new, SumTree.size_leaf, length_nil, Nat.zero_add] at hstep ⊢
  rw [loop, hstep]
  simp only [map_nil, zip_nil_left, scanItems, Exec.pure_eq_ok, Exec.ok_bind]
  match hend : SeekAggregate.endLeaf T S (SeekAggregate.beginLeaf T S a) with
  | .error e =>
    rw [hend] at hleaf
    exact .inr ⟨0, hleaf, fun _ => by simp [collectBound]⟩
  | .ok a' =>
    rw [hend] at hleaf
    have hfinished : Resting P (.leaf Summary.zero [] [] : SumTree T S) [] [] [] := .finished
    exact ⟨rfl, hfinished, tr.start, hleaf, fun _ => by simp only [collectBound]; omega,
      by simp, by simp⟩

/-- What `seek_internal` does once its loop has ended. -/
def seekFinish (target : SeekTarget D) (bias : Bias) (c : Cursor T S D)
    (st : SeekState T S D A) : Run (Cursor T S D × A × Bool) := do
  let c := { c with stack := st.stack, position := st.position, atEnd := st.stack.isEmpty }
  match c.stack with
  | entry :: _ => if ¬ entry.tree.isLeaf then throw .debugAssert
  | [] => pure ()
  let «end» ←
    if bias = .left then
      match ← c.itemSummary with
      | some summary => pure (Dimension.addSummary c.position summary)
      | none         => pure c.position
    else
      pure c.position
  pure (c, st.aggregate, target «end» == .eq)

theorem seekInternal_eq (hback : target c.position ≠ .lt) {stack : List (StackEntry T S D)}
    (hstack : (c.didSeek = true ∧ c.stack = stack) ∨ (c.didSeek = false ∧
      pushEntry c.stack ⟨c.tree, 0, Dimension.zero S⟩ = .ok stack)) :
    c.seekInternal target bias a = (do
      let st ← loop .loopBound (seekStep target bias) c.tree.size ⟨stack, c.position, false, a⟩
      seekFinish target bias { c with didSeek := true, stack := stack } st) := by
  obtain ⟨tree, stack', position, didSeek, atEnd⟩ := c
  unfold seekInternal
  rw [if_neg hback]
  rcases hstack with ⟨hd, hs⟩ | ⟨hd, hpush⟩
  · obtain rfl : didSeek = true := hd
    obtain rfl : stack' = stack := hs
    rfl
  · obtain rfl : didSeek = false := hd
    simp only [hpush]
    rfl

theorem seekFinish_spec (htree : c.tree = root)
    (hseek : c.didSeek = true) (sought : Sought P R target bias root before ahead n mid after st) :
    Returns (Landed P R target bias root before ahead n mid after)
      (seekFinish target bias c st) := by
  have pos : Cursor.At P root (before ++ mid) after
      { c with stack := st.stack, position := st.position, atEnd := st.stack.isEmpty } :=
    ⟨htree, hseek, sought.resting.isEmpty, sought.resting, sought.position⟩
  refine ⟨⟨_, st.aggregate, target (if bias = .left then endOf st.position after
    else st.position) == .eq⟩, ?_, ⟨sought.split, pos, sought.reached, sought.stopped⟩,
    sought.collected, sought.few, rfl⟩
  have hsummary := pos.itemSummary_eq
  have hresting := sought.resting
  obtain ⟨stack, position, ascending, a⟩ := st
  unfold seekFinish
  cases bias with
  | left =>
    cases stack with
    | nil =>
      simp only [hsummary]
      cases after <;> rfl
    | cons e rest =>
      simp only [hsummary, hresting.isLeaf]
      cases after <;> rfl
  | right =>
    cases stack with
    | nil => rfl
    | cons e rest =>
      simp only [hresting.isLeaf]
      rfl

/-- **Seeking**: a seek that returns leaves the cursor at a cut of the items that
    were ahead.  It fails only on a target that lies behind the cursor, on a tree
    of more than 15 levels above its leaves, or with its aggregate. -/
theorem seekInternal_spec (tr : Tracks P) (hroot : root.WellFormed)
    (ag : Aggregates R L E root.height)
    (standing : Standing P root before ahead c) (collected : R 0 [] a) :
    Ensures (fun r => ∃ n mid after, Landed P R target bias root before ahead n mid after r)
      (fun e => (e = .cannotSeekBackward ∧ target c.position = .lt) ∨
        SeekError P E root.height e)
      (c.seekInternal target bias a) := by
  by_cases hback : target c.position = .lt
  · unfold seekInternal
    rw [if_pos hback]
    exact .inl ⟨rfl, hback⟩
  rcases standing with ⟨rfl, rfl, rfl⟩ | pos
  · rw [seekInternal_eq hback (.inr ⟨rfl, rfl⟩)]
    have hloop : Ensures
        (fun st => ∃ n mid after, Sought P R target bias root [] root.toList n mid after st)
        (fun e => (e = .cannotSeekBackward ∧ target (Dimension.zero S) = .lt) ∨
          SeekError P E root.height e)
        (loop .loopBound (seekStep target bias) root.size
          ⟨[⟨root, 0, Dimension.zero S⟩], Dimension.zero S, false, a⟩) := by
      rcases hroot with rfl | ⟨h, hle, wf⟩
      · exact (seekLoop_new tr ag collected _).imp (fun st h => ⟨1, [], [], h⟩)
          (fun e he => .inr he)
      · have hseeking : Seeking P R target bias root 1 [] root.toList 0 [] root.toList
            ⟨[⟨root, 0, Dimension.zero S⟩], Dimension.zero S, false, a⟩ := by
          exact ⟨rfl, Walk.whole tr wf, tr.start, collected, by simp, fun _ => .inl (by simp)⟩
        exact (seekLoop_spec tr ag (by omega) hseeking).imp (fun st h => h) (fun e he => .inr he)
    refine hloop.bind ?_
    rintro st ⟨n, mid, after, sought⟩
    exact ((seekFinish_spec rfl rfl sought).imp fun _ h => ⟨n, mid, after, h⟩).ensures
  · obtain rfl := pos.tree
    rw [seekInternal_eq hback (.inl ⟨pos.didSeek, rfl⟩)]
    have hseeking : Seeking P R target bias c.tree c.stack.length before ahead 0 [] ahead
        ⟨c.stack, c.position, false, a⟩ := by
      refine ⟨rfl, ?_, ?_, collected, by simp, fun _ => .inl (by simp)⟩
      · simpa using pos.stack.walk
      · simpa using pos.position
    have hloop := (seekLoop_spec tr ag pos.stack.length_le hseeking).imp (fun _ h => h)
      (fun e (he : SeekError P E c.tree.height e) =>
        (.inr he : (e = .cannotSeekBackward ∧ target c.position = .lt) ∨ _))
    refine hloop.bind ?_
    rintro st ⟨n, mid, after, sought⟩
    have hfinish := seekFinish_spec (c := { c with didSeek := true }) pos.tree rfl sought
    exact (hfinish.imp fun _ h => ⟨n, mid, after, h⟩).ensures

/-- Before the first item the stack is empty, and a seek ends without moving. -/
theorem seekInternal_of_atStart
    (pos : c.AtStart P root) (a : A) :
    Ensures (fun r => r.1 = { c with atEnd := true } ∧ r.2.1 = a)
      (fun e => e = .cannotSeekBackward ∧ target c.position = .lt)
      (c.seekInternal target bias a) := by
  by_cases hback : target c.position = .lt
  · unfold seekInternal
    rw [if_pos hback]
    exact ⟨rfl, hback⟩
  rw [seekInternal_eq hback (.inl ⟨pos.didSeek, pos.stack⟩)]
  obtain ⟨n, hn⟩ : ∃ n, c.tree.size = n + 1 :=
    ⟨c.tree.size - 1, by have := c.tree.two_le_size; omega⟩
  obtain ⟨tree, stack, position, didSeek, atEnd⟩ := c
  obtain rfl : didSeek = true := pos.didSeek
  obtain rfl : stack = [] := pos.stack
  simp only [hn]
  cases bias <;> exact ⟨rfl, rfl⟩

end Scan

end Cursor

end Gpui
