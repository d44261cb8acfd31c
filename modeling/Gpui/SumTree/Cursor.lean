import Gpui.SumTree.Build

/-! # SumTree: cursors

    A cursor walks a tree with an explicit stack of the nodes it is inside of.
    The stack has room for 16 entries; its top is the head of the list here. -/

namespace Gpui

open Exec (Next loop)

variable {T S D : Type}

/-! ## The leaves at the edges of a tree -/

namespace SumTree

def leftmostLeaf : SumTree T S → Run (SumTree T S)
  | .leaf s its iss => .ok (.leaf s its iss)
  | .internal _ _ _ childTrees =>
      match childTrees with
      | []     => .error .unwrapNone
      | c :: _ => leftmostLeaf c

mutual
def rightmostLeaf : SumTree T S → Run (SumTree T S)
  | .leaf s its iss => .ok (.leaf s its iss)
  | .internal _ _ _ childTrees => rightmostLeafForest childTrees

/-- `child_trees.last().unwrap().rightmost_leaf()`. -/
def rightmostLeafForest : List (SumTree T S) → Run (SumTree T S)
  | [] => .error .unwrapNone
  | c :: cs =>
      match cs with
      | []     => rightmostLeaf c
      | _ :: _ => rightmostLeafForest cs
end

def first (t : SumTree T S) : Run (Option T) := do
  let leaf ← t.leftmostLeaf
  pure (← leaf.nodeItems).head?

def last (t : SumTree T S) : Run (Option T) := do
  let leaf ← t.rightmostLeaf
  pure (← leaf.nodeItems).getLast?

end SumTree

/-! ## The state of a cursor -/

structure StackEntry (T S D : Type) where
  tree     : SumTree T S
  index    : Nat
  position : D

/-- The capacity of the `ArrayVec` that holds the stack. -/
abbrev stackCapacity : Nat := 16

/-- `stack.push(entry).unwrap_oob()`. -/
def pushEntry (stack : List (StackEntry T S D)) (entry : StackEntry T S D) :
    Run (List (StackEntry T S D)) :=
  if stack.length < stackCapacity then .ok (entry :: stack) else .error .stackFull

structure Cursor (T S D : Type) where
  tree     : SumTree T S
  stack    : List (StackEntry T S D)
  position : D
  didSeek  : Bool
  atEnd    : Bool

namespace Cursor

variable [Dimension D S]

def new (tree : SumTree T S) : Cursor T S D where
  tree     := tree
  stack    := []
  position := Dimension.zero S
  didSeek  := false
  atEnd    := tree.isEmpty

def reset (c : Cursor T S D) : Cursor T S D :=
  { c with
    didSeek := false, atEnd := c.tree.isEmpty, stack := [], position := Dimension.zero S }

def start (c : Cursor T S D) : D := c.position

def assertDidSeek (c : Cursor T S D) : Run Unit :=
  if c.didSeek then .ok () else .error .mustSeekFirst

def item (c : Cursor T S D) : Run (Option T) := do
  c.assertDidSeek
  match c.stack with
  | entry :: _ =>
    match entry.tree with
    | .leaf _ items _ =>
      if entry.index = items.length then pure none
      else pure (some (← getIndex items entry.index))
    | .internal .. => throw .unreachableCode
  | [] => pure none

def itemSummary (c : Cursor T S D) : Run (Option S) := do
  c.assertDidSeek
  match c.stack with
  | entry :: _ =>
    match entry.tree with
    | .leaf _ _ itemSummaries =>
      if entry.index = itemSummaries.length then pure none
      else pure (some (← getIndex itemSummaries entry.index))
    | .internal .. => throw .unreachableCode
  | [] => pure none

def «end» (c : Cursor T S D) : Run D := do
  match ← c.itemSummary with
  | some itemSummary => pure (Dimension.addSummary c.start itemSummary)
  | none             => pure c.start

/-- The loop of `next_leaf`, over the stack without its top. -/
def nextLeaf : List (StackEntry T S D) → Run (Option (SumTree T S))
  | [] => pure none
  | entry :: rest => do
      let childTrees ← entry.tree.childTrees
      if entry.index < (← checkedSub childTrees.length 1) then
        let next ← getIndex childTrees (entry.index + 1)
        pure (some (← next.leftmostLeaf))
      else
        nextLeaf rest

def nextItem (c : Cursor T S D) : Run (Option T) := do
  c.assertDidSeek
  match c.stack with
  | entry :: rest =>
    let items ← entry.tree.nodeItems
    if entry.index = (← checkedSub items.length 1) then
      match ← nextLeaf rest with
      | some leaf =>
        match (← leaf.nodeItems).head? with
        | some x => pure (some x)
        | none   => throw .unwrapNone
      | none => pure none
    else
      pure (some (← getIndex items (entry.index + 1)))
  | [] => if c.atEnd then pure none else c.tree.first

/-- The loop of `prev_leaf`, over the stack without its top. -/
def prevLeaf : List (StackEntry T S D) → Run (Option (SumTree T S))
  | [] => pure none
  | entry :: rest => do
      if entry.index ≠ 0 then
        let childTrees ← entry.tree.childTrees
        let prev ← getIndex childTrees (← checkedSub entry.index 1)
        pure (some (← prev.rightmostLeaf))
      else
        prevLeaf rest

def prevItem (c : Cursor T S D) : Run (Option T) := do
  c.assertDidSeek
  match c.stack with
  | entry :: rest =>
    if entry.index = 0 then
      match ← prevLeaf rest with
      | some leaf =>
        match (← leaf.nodeItems).getLast? with
        | some x => pure (some x)
        | none   => throw .unwrapNone
      | none => pure none
    else
      let items ← entry.tree.nodeItems
      pure (some (← getIndex items (← checkedSub entry.index 1)))
  | [] => if c.atEnd then c.tree.last else pure none

/-! ## Moving backward -/

structure WalkState (T S D : Type) where
  stack    : List (StackEntry T S D)
  position : D
  descend  : Bool

/-- One pass of the loop of `search_backward`. -/
def backwardStep (filterNode : S → Bool) (st : WalkState T S D) :
    Run (Next (WalkState T S D) (WalkState T S D)) := do
  match st.stack with
  | [] => pure (.done st)
  | entry :: rest =>
    let position := match rest with
      | parent :: _ => parent.position
      | []          => Dimension.zero S
    if ¬ st.descend ∧ entry.index = 0 then
      pure (.again ⟨rest, position, false⟩)
    else
      let index := if st.descend then entry.index else entry.index - 1
      let childSummaries := entry.tree.childSummaries
      if childSummaries.length < index then throw .indexOutOfRange
      let position := (childSummaries.take index).foldl Dimension.addSummary position
      let entry := { entry with index := index, position := position }
      let descending := filterNode (← getIndex childSummaries index)
      match entry.tree with
      | .internal _ _ _ childTrees =>
        if descending then
          let tree ← getIndex childTrees index
          let last ← checkedSub tree.childSummaries.length 1
          let stack ← pushEntry (entry :: rest)
            { tree := tree, index := last, position := Dimension.zero S }
          pure (.again ⟨stack, position, true⟩)
        else
          pure (.again ⟨entry :: rest, position, false⟩)
      | .leaf .. =>
        if descending then pure (.done ⟨entry :: rest, position, true⟩)
        else pure (.again ⟨entry :: rest, position, false⟩)

def searchBackward (filterNode : S → Bool) (c : Cursor T S D) : Run (Cursor T S D) := do
  let atEnd := if c.didSeek then c.atEnd else true
  let c := { c with didSeek := true, atEnd := atEnd }
  let c ←
    if c.atEnd then
      let c := { c with position := Dimension.zero S, atEnd := c.tree.isEmpty }
      if c.tree.isEmpty then
        pure c
      else
        let stack ← pushEntry c.stack
          { tree := c.tree, index := c.tree.childSummaries.length,
            position := Dimension.addSummary (Dimension.zero S) c.tree.summary }
        pure { c with stack := stack }
    else
      pure c
  let st ← loop .loopBound (backwardStep filterNode) c.tree.size ⟨c.stack, c.position, false⟩
  pure { c with stack := st.stack, position := st.position }

def prev (c : Cursor T S D) : Run (Cursor T S D) :=
  searchBackward (fun _ => true) c

/-! ## Moving forward -/

/-- The loops over a node's summaries in `search_forward`: those that the filter
    turns down are skipped.  Returned are the index and both positions. -/
def skipFiltered (filterNode : S → Bool) :
    List S → Nat → D → D → Nat × D × D
  | [], index, entryPosition, position => (index, entryPosition, position)
  | s :: ss, index, entryPosition, position =>
      if filterNode s then
        (index, entryPosition, position)
      else
        skipFiltered filterNode ss (index + 1) (Dimension.addSummary entryPosition s)
          (Dimension.addSummary position s)

/-- How the loop of `search_forward` ends: at an item, or with an empty stack. -/
inductive ForwardEnd (T S D : Type) where
  | returned (st : WalkState T S D)
  | exhausted (st : WalkState T S D)

/-- One pass of the loop of `search_forward`. -/
def forwardStep (filterNode : S → Bool) (st : WalkState T S D) :
    Run (Next (WalkState T S D) (ForwardEnd T S D)) := do
  match st.stack with
  | [] => pure (.done (.exhausted st))
  | entry :: rest =>
    match entry.tree with
    | .internal _ _ childSummaries childTrees =>
      let entry := if st.descend then entry
        else { entry with index := entry.index + 1, position := st.position }
      let (index, entryPosition, position) := skipFiltered filterNode
        (childSummaries.drop entry.index) entry.index entry.position st.position
      let entry := { entry with index := index, position := entryPosition }
      match childTrees[index]? with
      | some subtree =>
        let stack ← pushEntry (entry :: rest)
          { tree := subtree, index := 0, position := position }
        pure (.again ⟨stack, position, true⟩)
      | none => pure (.again ⟨rest, position, false⟩)
    | .leaf _ _ itemSummaries =>
      let (entry, position) ←
        if st.descend then pure (entry, st.position)
        else do
          let itemSummary ← getIndex itemSummaries entry.index
          pure ({ entry with
              index := entry.index + 1,
              position := Dimension.addSummary entry.position itemSummary },
            Dimension.addSummary st.position itemSummary)
      let (index, entryPosition, position) := skipFiltered filterNode
        (itemSummaries.drop entry.index) entry.index entry.position position
      let entry := { entry with index := index, position := entryPosition }
      if index < itemSummaries.length then
        pure (.done (.returned ⟨entry :: rest, position, st.descend⟩))
      else
        pure (.again ⟨rest, position, false⟩)

def searchForward (filterNode : S → Bool) (c : Cursor T S D) : Run (Cursor T S D) := do
  let (c, descend) ←
    match c.stack with
    | [] =>
      if c.atEnd then pure ({ c with didSeek := true }, false)
      else do
        let stack ← pushEntry c.stack
          { tree := c.tree, index := 0, position := Dimension.zero S }
        pure ({ c with stack := stack, didSeek := true }, true)
    | _ :: _ => pure (c, false)
  match ← loop .loopBound (forwardStep filterNode) c.tree.size ⟨c.stack, c.position, descend⟩ with
  | .returned st => pure { c with stack := st.stack, position := st.position }
  | .exhausted st =>
    pure { c with stack := st.stack, position := st.position, atEnd := st.stack.isEmpty }

def next (c : Cursor T S D) : Run (Cursor T S D) :=
  searchForward (fun _ => true) c

/-- `next` of the `Iterator`: the item the cursor stands on, which is then left. -/
def iterNext (c : Cursor T S D) : Run (Option T × Cursor T S D) := do
  let c ← if c.didSeek then pure c else c.next
  match ← c.item with
  | some item => do
      let c ← c.next
      pure (some item, c)
  | none => pure (none, c)

end Cursor

/-! ## Seeking -/

/-- What `seek_internal` does with the trees and items it passes. -/
class SeekAggregate (A T S : Type) where
  beginLeaf : A → A
  endLeaf : A → Run A
  pushItem : A → T → S → Run A
  pushTree : A → SumTree T S → S → Run A

instance : SeekAggregate Unit T S where
  beginLeaf _ := ()
  endLeaf _ := .ok ()
  pushItem _ _ _ := .ok ()
  pushTree _ _ _ := .ok ()

structure SliceSeekAggregate (T S : Type) where
  tree              : SumTree T S
  leafItems         : List T
  leafItemSummaries : List S
  leafSummary       : S

instance [Summary S] : SeekAggregate (SliceSeekAggregate T S) T S where
  beginLeaf a := a
  endLeaf a := do
    let tree ← a.tree.append (.leaf a.leafSummary a.leafItems a.leafItemSummaries)
    pure { tree := tree, leafItems := [], leafItemSummaries := [], leafSummary := Summary.zero }
  pushItem a item summary := do
    let leafItems ← ArrayVec.push a.leafItems item
    let leafItemSummaries ← ArrayVec.push a.leafItemSummaries summary
    let leafSummary := Summary.addSummary a.leafSummary summary
    pure { a with
      leafItems := leafItems, leafItemSummaries := leafItemSummaries, leafSummary := leafSummary }
  pushTree a tree _ := do
    let tree ← a.tree.append tree
    pure { a with tree := tree }

structure SummarySeekAggregate (D : Type) where
  summary : D

instance [Dimension D S] : SeekAggregate (SummarySeekAggregate D) T S where
  beginLeaf a := a
  endLeaf a := .ok a
  pushItem a _ summary := .ok ⟨Dimension.addSummary a.summary summary⟩
  pushTree a _ summary := .ok ⟨Dimension.addSummary a.summary summary⟩

/-- Whether a target lies behind a piece of the tree that ends at `e`. -/
def reached (target : SeekTarget D) (bias : Bias) (e : D) : Bool :=
  target e == .gt || (target e == .eq && bias == .right)

namespace Cursor

variable [Dimension D S] {A : Type} [SeekAggregate A T S]

structure SeekState (T S D A : Type) where
  stack     : List (StackEntry T S D)
  position  : D
  ascending : Bool
  aggregate : A

/-- The `for` loop over the children in `seek_internal`.  The child that the
    target lies in is returned, if there is one. -/
def scanChildren (target : SeekTarget D) (bias : Bias) :
    List (SumTree T S × S) → StackEntry T S D → D → A →
      Run (Option (SumTree T S) × StackEntry T S D × D × A)
  | [], entry, position, aggregate => pure (none, entry, position, aggregate)
  | (childTree, childSummary) :: rest, entry, position, aggregate => do
      let childEnd := Dimension.addSummary position childSummary
      if reached target bias childEnd then
        let aggregate ← SeekAggregate.pushTree aggregate childTree childSummary
        scanChildren target bias rest
          { entry with index := entry.index + 1, position := childEnd } childEnd aggregate
      else
        pure (some childTree, entry, position, aggregate)

/-- The `for` loop over the items in `seek_internal`; `true` is returned when it
    stopped at an item. -/
def scanItems (target : SeekTarget D) (bias : Bias) :
    List (T × S) → StackEntry T S D → D → A → Run (Bool × StackEntry T S D × D × A)
  | [], entry, position, aggregate => pure (false, entry, position, aggregate)
  | (item, itemSummary) :: rest, entry, position, aggregate => do
      let childEnd := Dimension.addSummary position itemSummary
      if reached target bias childEnd then
        let aggregate ← SeekAggregate.pushItem aggregate item itemSummary
        scanItems target bias rest { entry with index := entry.index + 1 } childEnd aggregate
      else
        pure (true, entry, position, aggregate)

/-- One pass of the loop of `seek_internal`. -/
def seekStep (target : SeekTarget D) (bias : Bias) (st : SeekState T S D A) :
    Run (Next (SeekState T S D A) (SeekState T S D A)) := do
  match st.stack with
  | [] => pure (.done st)
  | entry :: rest =>
    match entry.tree with
    | .internal _ _ childSummaries childTrees =>
      let entry := if st.ascending then
          { entry with index := entry.index + 1, position := st.position }
        else entry
      if childTrees.length < entry.index ∨ childSummaries.length < entry.index then
        throw .indexOutOfRange
      let (child, entry, position, aggregate) ← scanChildren target bias
        ((childTrees.drop entry.index).zip (childSummaries.drop entry.index))
        entry st.position st.aggregate
      match child with
      | some childTree =>
        let stack ← pushEntry (entry :: rest)
          { tree := childTree, index := 0, position := position }
        pure (.again ⟨stack, position, false, aggregate⟩)
      | none => pure (.again ⟨rest, position, true, aggregate⟩)
    | .leaf _ items itemSummaries =>
      let aggregate := SeekAggregate.beginLeaf T S st.aggregate
      if items.length < entry.index ∨ itemSummaries.length < entry.index then
        throw .indexOutOfRange
      let (stopped, entry, position, aggregate) ← scanItems target bias
        ((items.drop entry.index).zip (itemSummaries.drop entry.index))
        entry st.position aggregate
      let aggregate ← SeekAggregate.endLeaf T S aggregate
      if stopped then
        pure (.done ⟨entry :: rest, position, st.ascending, aggregate⟩)
      else
        pure (.again ⟨rest, position, true, aggregate⟩)

/-- `seek_internal`: the cursor afterwards, what was passed, and whether the
    target was met exactly. -/
def seekInternal (c : Cursor T S D) (target : SeekTarget D) (bias : Bias) (aggregate : A) :
    Run (Cursor T S D × A × Bool) := do
  if target c.position = .lt then throw .cannotSeekBackward
  let c ←
    if c.didSeek then
      pure c
    else do
      let stack ← pushEntry c.stack
        { tree := c.tree, index := 0, position := Dimension.zero S }
      pure { c with didSeek := true, stack := stack }
  let st ← loop .loopBound (seekStep target bias) c.tree.size
    ⟨c.stack, c.position, false, aggregate⟩
  let c := { c with stack := st.stack, position := st.position, atEnd := st.stack.isEmpty }
  match c.stack with
  | entry :: _ => if ¬ entry.tree.isLeaf then throw .debugAssert
  | [] => pure ()
  let «end» ←
    if bias = .left then
      match ← c.itemSummary with
      | some summary => pure (Dimension.addSummary c.position summary)
      | none         => pure c.position
    else
      pure c.position
  pure (c, st.aggregate, target «end» == .eq)

def seek (c : Cursor T S D) (target : SeekTarget D) (bias : Bias) :
    Run (Cursor T S D × Bool) := do
  let (c, _, found) ← c.reset.seekInternal target bias ()
  pure (c, found)

def seekForward (c : Cursor T S D) (target : SeekTarget D) (bias : Bias) :
    Run (Cursor T S D × Bool) := do
  let (c, _, found) ← c.seekInternal target bias ()
  pure (c, found)

/-- `SeekTarget` of `End`: it lies behind everything. -/
def endTarget : SeekTarget D := fun _ => .gt

def slice [Summary S] (c : Cursor T S D) (target : SeekTarget D) (bias : Bias) :
    Run (Cursor T S D × SumTree T S) := do
  let slice : SliceSeekAggregate T S :=
    { tree := .new, leafItems := [], leafItemSummaries := [], leafSummary := Summary.zero }
  let (c, slice, _) ← c.seekInternal target bias slice
  pure (c, slice.tree)

def suffix [Summary S] (c : Cursor T S D) : Run (Cursor T S D × SumTree T S) :=
  c.slice endTarget .right

def summary (Output : Type) [Dimension Output S] (c : Cursor T S D) (target : SeekTarget D)
    (bias : Bias) : Run (Cursor T S D × Output) := do
  let (c, summary, _) ← c.seekInternal target bias
    (⟨Dimension.zero S⟩ : SummarySeekAggregate Output)
  pure (c, summary.summary)

end Cursor

/-! ## `items` -/

namespace SumTree

/-- `SumTree::items`: a cursor over `()` that walks the whole tree. -/
def items (t : SumTree T S) : Run (List T) := do
  let cursor ← (Cursor.new t : Cursor T S Unit).next
  loop .loopBound (fun ((cursor, items) : Cursor T S Unit × List T) => do
    match ← cursor.item with
    | some item => do
      let cursor ← cursor.next
      pure (.again (cursor, items ++ [item]))
    | none => pure (.done items))
    t.size (cursor, [])

end SumTree

end Gpui
