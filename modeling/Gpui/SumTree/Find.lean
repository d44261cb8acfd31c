import Gpui.SumTree.Cursor

/-! # SumTree: finding without a cursor

    `find`, `find_with_prev` and `find_exact` walk from the root to one leaf and
    keep no stack.  `EXACT` of the source is the argument `exact`. -/

namespace Gpui

variable {T S D : Type} [Dimension D S]

/-- `target_in_child` of the source: the target lies before the end `e`. -/
def targetInChild (target : SeekTarget D) (bias : Bias) (e : D) : Bool :=
  target e == .lt || (target e == .eq && bias == .left)

/-- `entry_found` of the source. -/
def entryFound (exact : Bool) (target : SeekTarget D) (bias : Bias) (e : D) : Bool :=
  if exact then target e == .eq else targetInChild target bias e

namespace SumTree

/-- The `for` loop over the items of a leaf in `find_iterate`: the position it leaves,
    and the item found with its end. -/
def findItem (exact : Bool) (target : SeekTarget D) (bias : Bias) :
    List (T × S) → D → D × Option (T × D)
  | [], position => (position, none)
  | (item, itemSummary) :: rest, position =>
      let childEnd := Dimension.addSummary position itemSummary
      if entryFound exact target bias childEnd then
        (position, some (item, childEnd))
      else
        findItem exact target bias rest childEnd

mutual
def findIterate (exact : Bool) (target : SeekTarget D) (bias : Bias) :
    SumTree T S → D → D × Option (T × D)
  | .internal _ _ childSummaries childTrees, position =>
      findIterateForest exact target bias childTrees childSummaries position
  | .leaf _ items itemSummaries, position =>
      findItem exact target bias (items.zip itemSummaries) position

/-- The `for` loop over the children; `continue 'iterate` is the call on the child. -/
def findIterateForest (exact : Bool) (target : SeekTarget D) (bias : Bias) :
    List (SumTree T S) → List S → D → D × Option (T × D)
  | childTree :: childTrees, childSummary :: childSummaries, position =>
      let childEnd := Dimension.addSummary position childSummary
      if targetInChild target bias childEnd then
        findIterate exact target bias childTree position
      else
        findIterateForest exact target bias childTrees childSummaries childEnd
  -- no child is left, or no summary
  | _, _, position => (position, none)
end

/-- `tree_end` of the source. -/
def treeEnd (D : Type) [Dimension D S] (t : SumTree T S) : D :=
  Dimension.addSummary (Dimension.zero S) t.summary

def findExact (t : SumTree T S) (target : SeekTarget D) (bias : Bias) : D × D × Option T :=
  let treeEnd := t.treeEnd D
  if reached target bias treeEnd then
    (treeEnd, treeEnd, none)
  else
    match findIterate true target bias t (Dimension.zero S) with
    | (pos, some (item, itemEnd)) => (pos, itemEnd, some item)
    | (pos, none)                 => (pos, pos, none)

def find (t : SumTree T S) (target : SeekTarget D) (bias : Bias) : D × D × Option T :=
  let treeEnd := t.treeEnd D
  if reached target bias treeEnd then
    (treeEnd, treeEnd, none)
  else
    match findIterate false target bias t (Dimension.zero S) with
    | (pos, some (item, itemEnd)) => (pos, itemEnd, some item)
    | (pos, none)                 => (pos, pos, none)

/-! ## With the item before -/

/-- The `for` loop over the items of a leaf in `find_with_prev_iterate`. -/
def findItemWithPrev (exact : Bool) (target : SeekTarget D) (bias : Bias) :
    List (T × S) → D → Option T → D × Option (Option T × T × D)
  | [], position, _ => (position, none)
  | (item, itemSummary) :: rest, position, prev =>
      let childEnd := Dimension.addSummary position itemSummary
      if entryFound exact target bias childEnd then
        (position, some (prev, item, childEnd))
      else
        findItemWithPrev exact target bias rest childEnd (some item)

mutual
/-- It fails where `child_tree.last()` does. -/
def findWithPrevIterate (exact : Bool) (target : SeekTarget D) (bias : Bias) :
    SumTree T S → D → Option T → Run (D × Option (Option T × T × D))
  | .internal _ _ childSummaries childTrees, position, prev =>
      findWithPrevForest exact target bias childTrees childSummaries position prev
  | .leaf _ items itemSummaries, position, prev =>
      pure (findItemWithPrev exact target bias (items.zip itemSummaries) position prev)

/-- The `for` loop over the children in `find_with_prev_iterate`. -/
def findWithPrevForest (exact : Bool) (target : SeekTarget D) (bias : Bias) :
    List (SumTree T S) → List S → D → Option T → Run (D × Option (Option T × T × D))
  | childTree :: childTrees, childSummary :: childSummaries, position, prev =>
      let childEnd := Dimension.addSummary position childSummary
      if targetInChild target bias childEnd then
        findWithPrevIterate exact target bias childTree position prev
      else do
        let prev ← childTree.last
        findWithPrevForest exact target bias childTrees childSummaries childEnd prev
  | _, _, position, _ => pure (position, none)
end

def findWithPrev (t : SumTree T S) (target : SeekTarget D) (bias : Bias) :
    Run (D × D × Option (Option T × T)) := do
  let treeEnd := t.treeEnd D
  if reached target bias treeEnd then
    pure (treeEnd, treeEnd, none)
  else
    match ← findWithPrevIterate false target bias t (Dimension.zero S) none with
    | (pos, some (prev, item, itemEnd)) => pure (pos, itemEnd, some (prev, item))
    | (pos, none)                       => pure (pos, pos, none)

end SumTree

end Gpui
