import Gpui.SumTree.Basic

/-! # SumTree: appending

    `append` and the routines it is made of.  A tree that the source mutates in
    place is returned; a fixed-size array is a list whose additions are checked
    against `nodeCapacity`. -/

namespace Gpui

variable {T S : Type}

/-! ## Fixed-size arrays and `u8` heights -/

namespace ArrayVec

/-- `push(..).unwrap_oob()`. -/
def push {α : Type} (xs : List α) (x : α) : Run (List α) :=
  if xs.length < nodeCapacity then .ok (xs ++ [x]) else .error .unwrapOob

/-- `insert(0, ..).unwrap_oob()`. -/
def insertFront {α : Type} (xs : List α) (x : α) : Run (List α) :=
  if xs.length < nodeCapacity then .ok (x :: xs) else .error .unwrapOob

/-- `extend`, which panics when the elements do not fit. -/
def extend {α : Type} (xs ys : List α) : Run (List α) :=
  if xs.length + ys.length ≤ nodeCapacity then .ok (xs ++ ys) else .error .unwrapOob

/-- `collect` into a fixed-size array. -/
def collect {α : Type} (xs : List α) : Run (List α) :=
  extend [] xs

/-- `*xs.last_mut().unwrap() = x`. -/
def setLast {α : Type} (xs : List α) (x : α) : Run (List α) :=
  if xs.isEmpty then .error .unwrapNone else .ok (xs.dropLast ++ [x])

/-- `*xs.first_mut().unwrap() = x`. -/
def setFirst {α : Type} (xs : List α) (x : α) : Run (List α) :=
  if xs.isEmpty then .error .unwrapNone else .ok (x :: xs.tail)

end ArrayVec

/-- `h + 1` on `u8`. -/
def succHeight (h : Nat) : Run Nat :=
  if h < 255 then .ok (h + 1) else .error .addOverflow

/-- `h - k` on an unsigned type. -/
def checkedSub (h k : Nat) : Run Nat :=
  if k ≤ h then .ok (h - k) else .error .subOverflow

namespace SumTree

variable [Summary S]

/-- Where a row of `n` children that has outgrown its node is cut. -/
def midpoint (n : Nat) : Nat := (n + n % 2) / 2

/-! ## Appending on the right -/

/-- The end of the `Internal` branch of `push_tree_recursive`: the children
    gained go in behind the old ones, or the node is split at the midpoint. -/
def pushChildren (height : Nat) (summary : S) (childSummaries : List S)
    (childTrees : List (SumTree T S)) (summariesToAppend : List S)
    (treesToAppend : List (SumTree T S)) :
    Run (SumTree T S × Option (SumTree T S)) := do
  let childCount := childTrees.length + treesToAppend.length
  if nodeCapacity < childCount then
    let mid := midpoint childCount
    let allSummaries := childSummaries ++ summariesToAppend
    let leftSummaries ← ArrayVec.collect (allSummaries.take mid)
    let rightSummaries ← ArrayVec.collect (allSummaries.drop mid)
    let allTrees := childTrees ++ treesToAppend
    let leftTrees ← ArrayVec.collect (allTrees.take mid)
    let rightTrees ← ArrayVec.collect (allTrees.drop mid)
    pure (.internal height (sum leftSummaries) leftSummaries leftTrees,
      some (.internal height (sum rightSummaries) rightSummaries rightTrees))
  else
    let childSummaries ← ArrayVec.extend childSummaries summariesToAppend
    let childTrees ← ArrayVec.extend childTrees treesToAppend
    pure (.internal height summary childSummaries childTrees, none)

/-- The `Leaf` branch of `push_tree_recursive`. -/
def pushItems (summary : S) (items : List T) (itemSummaries : List S)
    (other : SumTree T S) : Run (SumTree T S × Option (SumTree T S)) := do
  let otherItems ← other.nodeItems
  let childCount := items.length + otherItems.length
  if nodeCapacity < childCount then
    let mid := midpoint childCount
    let allItems := items ++ otherItems
    let leftItems ← ArrayVec.collect (allItems.take mid)
    let rightItems ← ArrayVec.collect (allItems.drop mid)
    let allSummaries := itemSummaries ++ other.childSummaries
    let leftSummaries ← ArrayVec.collect (allSummaries.take mid)
    let rightSummaries ← ArrayVec.collect (allSummaries.drop mid)
    pure (.leaf (sum leftSummaries) leftItems leftSummaries,
      some (.leaf (sum rightSummaries) rightItems rightSummaries))
  else
    let summary := Summary.addSummary summary other.summary
    let items ← ArrayVec.extend items otherItems
    let itemSummaries ← ArrayVec.extend itemSummaries other.childSummaries
    pure (.leaf summary items itemSummaries, none)

mutual
/-- `push_tree_recursive`: `other` goes in at the right end of the tree.  The
    second component is the sibling split off when the tree had no room. -/
def pushTreeRecursive :
    SumTree T S → SumTree T S → Run (SumTree T S × Option (SumTree T S))
  | .internal height summary childSummaries childTrees, other => do
      let summary := Summary.addSummary summary other.summary
      let heightDelta ← checkedSub height other.height
      if heightDelta = 0 then
        let summariesToAppend ← ArrayVec.collect other.childSummaries
        let treesToAppend ← ArrayVec.collect (← other.childTrees)
        pushChildren height summary childSummaries childTrees summariesToAppend treesToAppend
      else if heightDelta = 1 ∧ other.isUnderflowing = false then
        let summariesToAppend ← ArrayVec.push [] other.summary
        let treesToAppend ← ArrayVec.push [] other
        pushChildren height summary childSummaries childTrees summariesToAppend treesToAppend
      else
        let (childTrees, lastSummary, treeToAppend) ← pushTreeLast childTrees other
        let childSummaries ← ArrayVec.setLast childSummaries lastSummary
        match treeToAppend with
        | some splitTree =>
          let summariesToAppend ← ArrayVec.push [] splitTree.summary
          let treesToAppend ← ArrayVec.push [] splitTree
          pushChildren height summary childSummaries childTrees summariesToAppend treesToAppend
        | none => pushChildren height summary childSummaries childTrees [] []
  | .leaf summary items itemSummaries, other =>
      pushItems summary items itemSummaries other

/-- `child_trees.last_mut().unwrap().push_tree_recursive(other)`: the row with
    its last tree replaced, the new summary of that tree, and its sibling. -/
def pushTreeLast :
    List (SumTree T S) → SumTree T S →
      Run (List (SumTree T S) × S × Option (SumTree T S))
  | [], _ => .error .unwrapNone
  | c :: cs, other =>
      match cs with
      | [] => do
          let (c, split) ← pushTreeRecursive c other
          pure ([c], c.summary, split)
      | _ :: _ => do
          let (cs, lastSummary, split) ← pushTreeLast cs other
          pure (c :: cs, lastSummary, split)
end

/-! ## Appending on the left -/

/-- Merge two nodes of one height into the right one.  When they do not fit
    into a node, the left half is returned as a node of its own. -/
def mergeIntoRight (small large : SumTree T S) :
    Run (SumTree T S × Option (SumTree T S)) := do
  if small.height ≠ large.height then throw .debugAssert
  match small, large with
  | .internal _ smallSummary smallChildSummaries smallChildTrees,
    .internal height summary childSummaries childTrees =>
    let totalChildCount := childTrees.length + smallChildTrees.length
    if totalChildCount ≤ nodeCapacity then
      let allTrees ← ArrayVec.extend smallChildTrees childTrees
      let allSummaries ← ArrayVec.extend smallChildSummaries childSummaries
      pure (.internal height (Summary.addSummary smallSummary summary) allSummaries allTrees,
        none)
    else
      let mid := (totalChildCount + 1) / 2
      let allTrees := smallChildTrees ++ childTrees
      let leftTrees ← ArrayVec.collect (allTrees.take mid)
      let rightTrees ← ArrayVec.collect (allTrees.drop mid)
      let allSummaries := smallChildSummaries ++ childSummaries
      let leftSummaries ← ArrayVec.collect (allSummaries.take mid)
      let rightSummaries ← ArrayVec.collect (allSummaries.drop mid)
      pure (.internal height (sum rightSummaries) rightSummaries rightTrees,
        some (.internal height (sum leftSummaries) leftSummaries leftTrees))
  | .leaf smallSummary smallItems smallItemSummaries,
    .leaf summary items itemSummaries =>
    let totalChildCount := smallItems.length + items.length
    if totalChildCount ≤ nodeCapacity then
      let allItems ← ArrayVec.extend smallItems items
      let allSummaries ← ArrayVec.extend smallItemSummaries itemSummaries
      pure (.leaf (Summary.addSummary smallSummary summary) allItems allSummaries, none)
    else
      let mid := (totalChildCount + 1) / 2
      let allItems := smallItems ++ items
      let leftItems ← ArrayVec.collect (allItems.take mid)
      let rightItems ← ArrayVec.collect (allItems.drop mid)
      let allSummaries := smallItemSummaries ++ itemSummaries
      let leftSummaries ← ArrayVec.collect (allSummaries.take mid)
      let rightSummaries ← ArrayVec.collect (allSummaries.drop mid)
      pure (.leaf (sum rightSummaries) rightItems rightSummaries,
        some (.leaf (sum leftSummaries) leftItems leftSummaries))
  | _, _ => throw .unreachableCode

/-- The end of `append_large`: the tree that came up from the first child goes
    in at the front, or the node is split with it. -/
def insertFirst (height : Nat) (summary : S) (childSummaries : List S)
    (childTrees : List (SumTree T S)) :
    Option (SumTree T S) → Run (SumTree T S × Option (SumTree T S))
  | none => pure (.internal height summary childSummaries childTrees, none)
  | some tree => do
      if childTrees.length < nodeCapacity then
        let childSummaries ← ArrayVec.insertFront childSummaries tree.summary
        let childTrees ← ArrayVec.insertFront childTrees tree
        pure (.internal height summary childSummaries childTrees, none)
      else
        let newChildSummaries ← ArrayVec.extend [tree.summary] (childSummaries.take treeBase)
        let newChildTrees ← ArrayVec.extend [tree] (childTrees.take treeBase)
        let childSummaries := childSummaries.drop treeBase
        let childTrees := childTrees.drop treeBase
        pure (.internal height (sum childSummaries) childSummaries childTrees,
          some (.internal height (sum newChildSummaries) newChildSummaries newChildTrees))

/-- `append_large`: `small` goes in at the left end of `large`, which is at
    least as high.  The second component is the tree that did not fit. -/
def appendLarge (small : SumTree T S) :
    SumTree T S → Run (SumTree T S × Option (SumTree T S))
  | .internal height summary childSummaries childTrees => do
      let large := SumTree.internal height summary childSummaries childTrees
      if small.height = height then
        if small.isUnderflowing then mergeIntoRight small large else pure (large, some small)
      else
        if ¬ small.height < height then throw .debugAssert
        let fullSummary := Summary.addSummary small.summary summary
        match childTrees with
        | [] => throw .unwrapNone
        | first :: rest =>
          let (first, res) ← appendLarge small first
          let childSummaries ← ArrayVec.setFirst childSummaries first.summary
          insertFirst height fullSummary childSummaries (first :: rest) res
  | .leaf summary items itemSummaries => do
      let large := SumTree.leaf summary items itemSummaries
      if small.height = 0 then
        if small.isUnderflowing then mergeIntoRight small large else pure (large, some small)
      else
        -- `small.height() < large.height()` is asserted before the match on `large`
        throw .debugAssert

/-! ## `append` and what is built on it -/

def fromChildTrees (left right : SumTree T S) : Run (SumTree T S) := do
  let height ← succHeight left.height
  let childSummaries ← ArrayVec.push [] left.summary
  let childSummaries ← ArrayVec.push childSummaries right.summary
  let childTrees ← ArrayVec.push [] left
  let childTrees ← ArrayVec.push childTrees right
  pure (.internal height (sum childSummaries) childSummaries childTrees)

def append (self other : SumTree T S) : Run (SumTree T S) := do
  if self.isEmpty then
    pure other
  else if other.isEmpty then
    -- `!other.0.is_leaf() || !other.0.items().is_empty()` fails: nothing to add
    pure self
  else if self.height < other.height then
    let (other, res) ← appendLarge self other
    match res with
    | some tree => fromChildTrees tree other
    | none      => pure other
  else
    let (self, res) ← pushTreeRecursive self other
    match res with
    | some splitTree => fromChildTrees self splitTree
    | none           => pure self

variable [Item T S]

def push (self : SumTree T S) (item : T) : Run (SumTree T S) :=
  let summary := Item.summary item
  append self (.leaf summary [item] [summary])

def fromItem (item : T) : Run (SumTree T S) :=
  push new item

end SumTree

end Gpui

/-! # SumTree: well-formed trees

    `Wf h t` is the shape every node of a tree keeps, `h` levels above the
    leaves.  It does not ask for half-full nodes: `from_iter` leaves short
    right spines behind, and cursors cut nodes anywhere. -/

set_option linter.unusedSectionVars false

namespace Gpui

variable {T S : Type}

/-! ## Sums -/

section Sums

variable [Summary S] [LawfulSummary S]

theorem addSummary_sum (s : S) {ss : List S} (hne : ss ≠ []) :
    Summary.addSummary s (sum ss) = ss.foldl Summary.addSummary s :=
  Fold.act_sum LawfulSummary.zero_add LawfulSummary.add_assoc hne s

/-- Zero is no right unit, so the right summand has to be a real sum. -/
theorem sum_append (ss : List S) {ts : List S} (hne : ts ≠ []) :
    sum (ss ++ ts) = Summary.addSummary (sum ss) (sum ts) := by
  rw [addSummary_sum _ hne, sum, sum, List.foldl_append]

theorem sum_singleton (s : S) : sum [s] = s := by
  simp [sum, LawfulSummary.zero_add]

end Sums

/-- The in-order sum of the item summaries of a list. -/
def itemsSum [Summary S] [Item T S] (xs : List T) : S :=
  sum (xs.map Item.summary)

section Measures

variable [Item T S] {D : Type} [Dimension D S]

theorem measureFrom_append (d : D) (xs ys : List T) :
    measureFrom d (xs ++ ys) = measureFrom (measureFrom d xs) ys := by
  simp [measureFrom]

theorem measure_append (xs ys : List T) :
    measure D (xs ++ ys) = measureFrom (measure D xs) ys :=
  measureFrom_append _ xs ys

theorem measure_concat (xs : List T) (x : T) :
    measure D (xs ++ [x]) = Dimension.addSummary (measure D xs) (Item.summary x) :=
  measure_append xs [x]

@[simp] theorem measureFrom_nil (d : D) : measureFrom d ([] : List T) = d := rfl

@[simp] theorem measureFrom_cons (d : D) (x : T) (xs : List T) :
    measureFrom d (x :: xs) = measureFrom (Dimension.addSummary d (Item.summary x)) xs := rfl

@[simp] theorem measure_nil : measure D ([] : List T) = Dimension.zero S := rfl

end Measures

section ItemsSum

variable [Summary S] [LawfulSummary S] [Item T S]

theorem itemsSum_append (xs : List T) {ys : List T} (hne : ys ≠ []) :
    itemsSum (S := S) (xs ++ ys) = Summary.addSummary (itemsSum xs) (itemsSum ys) := by
  rw [itemsSum, List.map_append, sum_append _ (by simpa using hne)]
  rfl

/-- Adding the sum of a non-empty block moves a lawful dimension past the
    block's items. -/
theorem addSummary_itemsSum {D : Type} [Dimension D S] [LawfulDimension D S]
    (d : D) {xs : List T} (hne : xs ≠ []) :
    Dimension.addSummary d (itemsSum (S := S) xs) = measureFrom d xs :=
  Fold.act_sum LawfulSummary.zero_add LawfulDimension.add_add (by simpa using hne) d

end ItemsSum

/-! ## The invariant of a node -/

namespace SumTree

variable [Summary S] [Item T S]

/-- `Wf h t`: all leaves of `t` lie `h` levels down, every stored height is one
    more than its children's, no node is empty or over capacity, and the cached
    summaries are those of the children and of the items below. -/
inductive Wf : Nat → SumTree T S → Prop where
  | leaf {items : List T} (ne : items ≠ []) (le : items.length ≤ nodeCapacity) :
      Wf 0 (.leaf (itemsSum items) items (items.map Item.summary))
  | internal {h : Nat} {cts : List (SumTree T S)} (ne : cts ≠ [])
      (le : cts.length ≤ nodeCapacity) (children : ∀ c ∈ cts, Wf h c) :
      Wf (h + 1) (.internal (h + 1) (itemsSum (toListForest cts)) (cts.map summary) cts)

/-- The number of children or items of the root. -/
def rootSize : SumTree T S → Nat
  | .internal _ _ _ cts => cts.length
  | .leaf _ its _       => its.length

@[simp] theorem rootSize_internal (h : Nat) (s : S) (css : List S)
    (cts : List (SumTree T S)) : (internal h s css cts).rootSize = cts.length := rfl

variable {h : Nat} {t : SumTree T S} {cts : List (SumTree T S)}

theorem Wf.height_eq (wf : Wf h t) : t.height = h := by
  cases wf <;> rfl

theorem Wf.rootSize_le (wf : Wf h t) :
    t.rootSize ≤ nodeCapacity := by
  cases wf <;> assumption

theorem Wf.isEmpty_eq (wf : Wf h t) : t.isEmpty = false := by
  cases wf with
  | leaf ne _ => simpa [isEmpty] using ne
  | internal => rfl

theorem Wf.summary_eq (wf : Wf h t) :
    t.summary = itemsSum t.toList := by
  cases wf <;> simp [summary]

theorem Wf.toList_ne_nil (wf : Wf h t) : t.toList ≠ [] := by
  induction wf with
  | leaf ne _ => simpa using ne
  | @internal h cts ne _ _ ih =>
    obtain ⟨c, cs, rfl⟩ := List.exists_cons_of_ne_nil ne
    have hc : c.toList ≠ [] := ih c (by simp)
    simp [hc]

theorem toListForest_ne_nil (hw : ∀ c ∈ cts, Wf h c) (hne : cts ≠ []) : toListForest cts ≠ [] := by
  obtain ⟨c, cs, rfl⟩ := List.exists_cons_of_ne_nil hne
  have hc := (hw c (by simp)).toList_ne_nil
  simp [hc]

section Lawful

variable [LawfulSummary S]

/-- The sum of the children's summaries is the sum of their items. -/
theorem sum_map_summary (hw : ∀ c ∈ cts, Wf h c) :
    sum (cts.map summary) = itemsSum (toListForest cts) := by
  have hmap : cts.map summary =
      (cts.map (fun c => c.toList.map Item.summary)).map (fun ss => sum (S := S) ss) := by
    rw [List.map_map]
    exact List.map_congr_left (fun c hc => (hw c hc).summary_eq)
  have hblocks := Fold.foldl_sum_blocks (S := S) LawfulSummary.zero_add LawfulSummary.add_assoc
    (cts.map (fun c => c.toList.map Item.summary)) Summary.zero (by
      intro b hb
      obtain ⟨c, hc, rfl⟩ := List.mem_map.mp hb
      simpa using (hw c hc).toList_ne_nil)
  rw [itemsSum, toListForest_eq_flatten, List.map_flatten, List.map_map, hmap]
  exact hblocks

/-- A node built from children with the sum of their summaries is well formed. -/
theorem Wf.ofChildren (hw : ∀ c ∈ cts, Wf h c) (ne : cts ≠ []) (le : cts.length ≤ nodeCapacity) :
    Wf (h + 1) (.internal (h + 1) (sum (cts.map summary)) (cts.map summary) cts) := by
  rw [sum_map_summary hw]
  exact .internal ne le hw

end Lawful

/-- A well-formed tree: empty, or a well-formed node whose height fits `u8`. -/
def WellFormed (t : SumTree T S) : Prop :=
  t = new ∨ ∃ h, h ≤ 255 ∧ Wf h t

@[simp] theorem wellFormed_new : WellFormed (new : SumTree T S) := .inl rfl

variable {t : SumTree T S}

theorem Wf.wellFormed (wf : Wf h t) (hle : h ≤ 255) : WellFormed t := .inr ⟨h, hle, wf⟩

theorem isEmpty_iff_toList (wf : WellFormed t) :
    t.isEmpty = true ↔ t.toList = [] := by
  rcases wf with rfl | ⟨h, _, wf⟩
  · simp [new, isEmpty]
  · simp [wf.isEmpty_eq, wf.toList_ne_nil]

theorem WellFormed.height_le (wf : WellFormed t) : t.height ≤ 255 := by
  rcases wf with rfl | ⟨h, hle, wf⟩
  · simp [new, height]
  · rwa [wf.height_eq]

/-- An empty well-formed tree is `new`. -/
theorem WellFormed.eq_new (wf : WellFormed t) (he : t.isEmpty = true) :
    t = new := by
  rcases wf with rfl | ⟨h, _, wf⟩
  · rfl
  · simp [wf.isEmpty_eq] at he

theorem WellFormed.wf (wf : WellFormed t) (he : t.isEmpty = false) :
    Wf t.height t := by
  rcases wf with rfl | ⟨h, _, wf⟩
  · simp [new, isEmpty] at he
  · rwa [wf.height_eq]

end SumTree

end Gpui
