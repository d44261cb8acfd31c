import Gpui.Lib.Chunks
import Gpui.SumTree.AppendSpec

/-! # SumTree: building and updating

    `from_iter` and `from_par_iter`, which stack a tree up level by level, and
    `update_first` / `update_last`, which rewrite one of its edges. -/

set_option linter.unusedSectionVars false

namespace Gpui

open Exec (Returns Ensures Next loop)
open Chunks (chunks)

variable {T S : Type}

namespace SumTree

variable [Summary S] [Item T S]

/-! ## `from_iter` -/

/-- `summaries[0]` with the others added to it. -/
def sumFromFirst : List S → Run S
  | []      => .error .indexOutOfRange
  | s :: ss => .ok (ss.foldl Summary.addSummary s)

def leafNode (items : List T) : Run (SumTree T S) := do
  let items ← ArrayVec.collect items
  let itemSummaries ← ArrayVec.collect (items.map Item.summary)
  let summary ← sumFromFirst itemSummaries
  pure (.leaf summary items itemSummaries)

/-- The first loop of `from_iter`: full leaves are taken off the iterator. -/
def leafNodes (iter : List T) : Run (List (SumTree T S)) :=
  loop .loopBound (fun (nodes, iter) =>
    if iter.isEmpty then
      pure (.done nodes)
    else do
      let leaf ← leafNode (iter.take nodeCapacity)
      pure (.again (nodes ++ [leaf], iter.drop nodeCapacity)))
    (iter.length + 1) ([], iter)

/-- One pass of the inner loop of `from_iter`: `child` goes into the parent
    under construction, which is put aside when it is full. -/
def addChild (height : Nat) (state : List (SumTree T S) × Option (SumTree T S))
    (child : SumTree T S) : Run (List (SumTree T S) × Option (SumTree T S)) := do
  let (parentNodes, currentParentNode) := state
  match currentParentNode.getD (.internal height Summary.zero [] []) with
  | .internal h summary childSummaries childTrees =>
    let summary := Summary.addSummary summary child.summary
    let childSummaries ← ArrayVec.push childSummaries child.summary
    let childTrees ← ArrayVec.push childTrees child
    let parent := SumTree.internal h summary childSummaries childTrees
    if childTrees.length = nodeCapacity then
      pure (parentNodes ++ [parent], none)
    else
      pure (parentNodes, some parent)
  | .leaf .. => throw .unreachableCode

def parentNodes (height : Nat) (nodes : List (SumTree T S)) : Run (List (SumTree T S)) := do
  let (parentNodes, currentParentNode) ← nodes.foldlM (addChild height) ([], none)
  pure (parentNodes ++ currentParentNode.toList)

/-- The second loop of both constructors: `level height nodes` are the parents of
    `nodes`, and levels are added until one node is left. -/
def stack (level : Nat → List (SumTree T S) → Run (List (SumTree T S)))
    (nodes : List (SumTree T S)) : Run (List (SumTree T S)) :=
  loop .loopBound (fun (height, nodes) =>
    if 1 < nodes.length then do
      let height ← succHeight height
      let nodes ← level height nodes
      pure (.again (height, nodes))
    else
      pure (.done nodes))
    (nodes.length + 1) (0, nodes)

/-- The end of both constructors: the one node left, or the empty tree. -/
def root (nodes : List (SumTree T S)) : Run (SumTree T S) :=
  match nodes with
  | []     => pure new
  | [node] => pure node
  | _      => throw .debugAssert

def fromIter (iter : List T) : Run (SumTree T S) := do
  let nodes ← leafNodes iter
  let nodes ← stack parentNodes nodes
  root nodes

/-! ## `from_par_iter`

    The parallel iterator hands out the blocks in the order of the list. -/

def parLeafNodes (iter : List T) : Run (List (SumTree T S)) :=
  (chunks nodeCapacity iter).mapM leafNode

def parParentNode (height : Nat) (childNodes : List (SumTree T S)) : Run (SumTree T S) := do
  let childTrees ← ArrayVec.collect childNodes
  let childSummaries ← ArrayVec.collect (childTrees.map summary)
  let summary ← sumFromFirst childSummaries
  pure (.internal height summary childSummaries childTrees)

def parParentNodes (height : Nat) (nodes : List (SumTree T S)) :
    Run (List (SumTree T S)) :=
  (chunks nodeCapacity nodes).mapM (parParentNode height)

def fromParIter (iter : List T) : Run (SumTree T S) := do
  let nodes ← parLeafNodes iter
  let nodes ← stack parParentNodes nodes
  root nodes

def extend (self : SumTree T S) (iter : List T) : Run (SumTree T S) := do
  append self (← fromIter iter)

def parExtend (self : SumTree T S) (iter : List T) : Run (SumTree T S) := do
  append self (← fromParIter iter)

/-! ## Updating an edge of the tree -/

mutual
def updateLastRecursive (f : T → T) : SumTree T S → Run (SumTree T S × Option S)
  | .internal height _ childSummaries childTrees => do
      let (childTrees, lastSummary) ← updateLastChild f childTrees
      match lastSummary with
      | none => throw .unwrapNone
      | some lastSummary =>
        let childSummaries ← ArrayVec.setLast childSummaries lastSummary
        let summary := sum childSummaries
        pure (.internal height summary childSummaries childTrees, some summary)
  | .leaf summary items itemSummaries => do
      match items.getLast?, itemSummaries.getLast? with
      | some item, some _ =>
        let item := f item
        let items ← ArrayVec.setLast items item
        let itemSummaries ← ArrayVec.setLast itemSummaries (Item.summary item)
        let summary := sum itemSummaries
        pure (.leaf summary items itemSummaries, some summary)
      | _, _ => pure (.leaf summary items itemSummaries, none)

/-- `child_trees.last_mut().unwrap().update_last_recursive(f)`. -/
def updateLastChild (f : T → T) :
    List (SumTree T S) → Run (List (SumTree T S) × Option S)
  | [] => .error .unwrapNone
  | c :: cs =>
      match cs with
      | [] => do
          let (c, s) ← updateLastRecursive f c
          pure ([c], s)
      | _ :: _ => do
          let (cs, s) ← updateLastChild f cs
          pure (c :: cs, s)
end

def updateLast (self : SumTree T S) (f : T → T) : Run (SumTree T S) := do
  let (self, _) ← updateLastRecursive f self
  pure self

def updateFirstRecursive (f : T → T) : SumTree T S → Run (SumTree T S × Option S)
  | .internal height _ childSummaries childTrees => do
      match childTrees with
      | [] => throw .unwrapNone
      | first :: rest =>
        let (first, firstSummary) ← updateFirstRecursive f first
        match firstSummary with
        | none => throw .unwrapNone
        | some firstSummary =>
          let childSummaries ← ArrayVec.setFirst childSummaries firstSummary
          let summary := sum childSummaries
          pure (.internal height summary childSummaries (first :: rest), some summary)
  | .leaf summary items itemSummaries => do
      match items.head?, itemSummaries.head? with
      | some item, some _ =>
        let item := f item
        let items ← ArrayVec.setFirst items item
        let itemSummaries ← ArrayVec.setFirst itemSummaries (Item.summary item)
        let summary := sum itemSummaries
        pure (.leaf summary items itemSummaries, some summary)
      | _, _ => pure (.leaf summary items itemSummaries, none)

def updateFirst (self : SumTree T S) (f : T → T) : Run (SumTree T S) := do
  let (self, _) ← updateFirstRecursive f self
  pure self

end SumTree

end Gpui
