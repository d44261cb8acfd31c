import Gpui.Keymap.Context
import Gpui.Lib.Machine
import Gpui.Panic

/-! # Key dispatch: the tree of a frame

    While a frame is prepainted, every element pushes a node and pops it again.  The
    nodes lie in a vector in preorder; three stacks hold the open nodes, the contexts
    and the views around them, and two maps find the node of a focus id or a view.

    The top of a stack is the head of the list here.  `L` is a listener, of any kind.
    A map is a function to an option. -/

namespace Gpui.Dispatch

structure DispatchNode (L : Type) where
  keyListeners : List L
  actionListeners : List L
  modifiersChangedListeners : List L
  context : Option KeyContext
  focusId : Option Nat
  viewId : Option Nat
  parent : Option Nat
  deriving DecidableEq

structure DispatchTree (L : Type) where
  nodeStack : List Nat
  contextStack : List KeyContext
  viewStack : List Nat
  nodes : List (DispatchNode L)
  focusableNodeIds : Nat → Option Nat
  viewNodeIds : Nat → Option Nat

structure ReusedSubtree where
  oldRange : Nat × Nat
  newRange : Nat × Nat
  containsFocus : Bool
  deriving DecidableEq, Repr

variable {L : Type}

def DispatchNode.default : DispatchNode L := ⟨[], [], [], none, none, none, none⟩

namespace ReusedSubtree

def refreshNodeId (reused : ReusedSubtree) (nodeId : Nat) : Run Nat :=
  if reused.oldRange.1 ≤ nodeId ∧ nodeId < reused.oldRange.2 then
    .ok (nodeId - reused.oldRange.1 + reused.newRange.1)
  else .error .debugAssert

end ReusedSubtree

namespace DispatchTree

def new : DispatchTree L where
  nodeStack := []
  contextStack := []
  viewStack := []
  nodes := []
  focusableNodeIds := fun _ => none
  viewNodeIds := fun _ => none

def len (tree : DispatchTree L) : Nat := tree.nodes.length

def pushNode (tree : DispatchTree L) : DispatchTree L :=
  { tree with
    nodes := tree.nodes ++ [{ DispatchNode.default with parent := tree.nodeStack.head? }]
    nodeStack := tree.nodes.length :: tree.nodeStack }

/-- `active_node().unwrap()`, to be written through; the node's id comes with it. -/
def withActiveNode (tree : DispatchTree L) (f : DispatchNode L → DispatchNode L) :
    Run (Nat × DispatchTree L) :=
  match tree.nodeStack with
  | []          => .error .unwrapNone
  | nodeId :: _ =>
      if nodeId < tree.nodes.length then
        .ok (nodeId, { tree with nodes := tree.nodes.modify nodeId f })
      else .error .indexOutOfRange

def setKeyContext (tree : DispatchTree L) (context : KeyContext) : Run (DispatchTree L) := do
  let (_, tree) ← tree.withActiveNode (fun node => { node with context := some context })
  .ok { tree with contextStack := context :: tree.contextStack }

def setFocusId (tree : DispatchTree L) (focusId : Nat) : Run (DispatchTree L) := do
  let (nodeId, tree) ← tree.withActiveNode (fun node => { node with focusId := some focusId })
  .ok { tree with
    focusableNodeIds := Function.update tree.focusableNodeIds focusId (some nodeId) }

/-- A view that is on top already is not entered again. -/
def setViewId (tree : DispatchTree L) (viewId : Nat) : Run (DispatchTree L) :=
  if tree.viewStack.head? = some viewId then .ok tree
  else do
    let (nodeId, tree) ← tree.withActiveNode (fun node => { node with viewId := some viewId })
    .ok { tree with
      viewNodeIds := Function.update tree.viewNodeIds viewId (some nodeId)
      viewStack := viewId :: tree.viewStack }

def popNode (tree : DispatchTree L) : Run (DispatchTree L) :=
  match tree.nodeStack with
  | []              => .error .unwrapNone
  | nodeId :: stack => do
      let node ← getIndex tree.nodes nodeId
      .ok { tree with
        contextStack := if node.context.isSome then tree.contextStack.tail else tree.contextStack
        viewStack := if node.viewId.isSome then tree.viewStack.tail else tree.viewStack
        nodeStack := stack }

def onKeyEvent (tree : DispatchTree L) (listener : L) : Run (DispatchTree L) := do
  let (_, tree) ← tree.withActiveNode
    (fun node => { node with keyListeners := node.keyListeners ++ [listener] })
  .ok tree

def onModifiersChanged (tree : DispatchTree L) (listener : L) : Run (DispatchTree L) := do
  let (_, tree) ← tree.withActiveNode
    (fun node =>
      { node with modifiersChangedListeners := node.modifiersChangedListeners ++ [listener] })
  .ok tree

def onAction (tree : DispatchTree L) (listener : L) : Run (DispatchTree L) := do
  let (_, tree) ← tree.withActiveNode
    (fun node => { node with actionListeners := node.actionListeners ++ [listener] })
  .ok tree

end DispatchTree

/-! ## Copying a subtree -/

/-- What is left of a node when its listeners were taken. -/
def DispatchNode.emptied (node : DispatchNode L) : DispatchNode L :=
  { node with keyListeners := [], actionListeners := [], modifiersChangedListeners := [] }

/-- The loop of `reuse_subtree`: the target, the open nodes of the source, whether the
    focused id came by, and the source's nodes after their listeners were moved. -/
structure Reuse (L : Type) where
  target : DispatchTree L
  sourceStack : List Nat
  containsFocus : Bool
  moved : List (DispatchNode L)

namespace DispatchTree

def moveNode (tree : DispatchTree L) (source : DispatchNode L) :
    Run (DispatchTree L × DispatchNode L) := do
  let tree := tree.pushNode
  let tree ← match source.context with
    | some context => tree.setKeyContext context
    | none         => .ok tree
  let tree ← match source.focusId with
    | some focusId => tree.setFocusId focusId
    | none         => .ok tree
  let tree ← match source.viewId with
    | some viewId => tree.setViewId viewId
    | none        => .ok tree
  let (_, tree) ← tree.withActiveNode (fun target => { target with
    keyListeners := source.keyListeners
    actionListeners := source.actionListeners
    modifiersChangedListeners := source.modifiersChangedListeners })
  .ok (tree, source.emptied)

/-- Pops the source's nodes until their top is the given parent, and the target's nodes
    along with them. -/
def popToParent (parent : Option Nat) : List Nat → DispatchTree L →
    Run (List Nat × DispatchTree L)
  | [], tree => .ok ([], tree)
  | sourceAncestor :: sourceStack, tree =>
      if parent = some sourceAncestor then .ok (sourceAncestor :: sourceStack, tree)
      else do
        let tree ← tree.popNode
        popToParent parent sourceStack tree

def popAll : List Nat → DispatchTree L → Run (DispatchTree L)
  | [], tree => .ok tree
  | _ :: sourceStack, tree => do
      let tree ← tree.popNode
      popAll sourceStack tree

def reuseNode (focus : Option Nat) (reuse : Reuse L) :
    DispatchNode L × Nat → Run (Reuse L)
  | (sourceNode, sourceNodeId) => do
      let (sourceStack, tree) ← popToParent sourceNode.parent reuse.sourceStack reuse.target
      let (tree, sourceNode') ← tree.moveNode sourceNode
      .ok {
        target := tree
        sourceStack := sourceNodeId :: sourceStack
        containsFocus :=
          reuse.containsFocus || (sourceNode.focusId.isSome && sourceNode.focusId == focus)
        moved := reuse.moved ++ [sourceNode'] }

/-- Copies the nodes of the source from `start` to `stop`.  Returned are the new tree and
    the source as well. -/
def reuseSubtree (tree : DispatchTree L) (start stop : Nat) (source : DispatchTree L)
    (focus : Option Nat) : Run (ReusedSubtree × DispatchTree L × DispatchTree L) := do
  let newRange := (tree.nodes.length, tree.nodes.length + (stop - start))
  let reuse ← ((source.nodes.zipIdx.drop start).take (stop - start)).foldlM (reuseNode focus)
    { target := tree, sourceStack := [], containsFocus := false, moved := [] }
  let tree ← popAll reuse.sourceStack reuse.target
  .ok ({ oldRange := (start, stop), newRange := newRange, containsFocus := reuse.containsFocus },
    tree,
    { source with
      nodes := source.nodes.take start ++ reuse.moved ++
        source.nodes.drop (start + reuse.moved.length) })

/-! ## Rolling back -/

/-- The ids of the nodes that are cut off are taken out of a map. -/
def removeIds (ids : List (Option Nat)) (nodeIds : Nat → Option Nat) : Nat → Option Nat :=
  ids.foldl (fun nodeIds id =>
    match id with
    | some id => Function.update nodeIds id none
    | none    => nodeIds) nodeIds

/-- `truncate`, which slices the nodes from `index` on. -/
def truncate (tree : DispatchTree L) (index : Nat) : Run (DispatchTree L) :=
  if index ≤ tree.nodes.length then
    .ok { tree with
      focusableNodeIds :=
        removeIds ((tree.nodes.drop index).map DispatchNode.focusId) tree.focusableNodeIds
      viewNodeIds := removeIds ((tree.nodes.drop index).map DispatchNode.viewId) tree.viewNodeIds
      nodes := tree.nodes.take index }
  else .error .indexOutOfRange

end DispatchTree

/-! ## Building a tree -/

/-- What an element does to the tree while it is prepainted. -/
inductive Op (L : Type) where
  | pushNode
  | setKeyContext (context : KeyContext)
  | setFocusId (focusId : Nat)
  | setViewId (viewId : Nat)
  | onKeyEvent (listener : L)
  | onModifiersChanged (listener : L)
  | onAction (listener : L)
  | popNode

def DispatchTree.apply (tree : DispatchTree L) : Op L → Run (DispatchTree L)
  | .pushNode                    => .ok tree.pushNode
  | .setKeyContext context       => tree.setKeyContext context
  | .setFocusId focusId          => tree.setFocusId focusId
  | .setViewId viewId            => tree.setViewId viewId
  | .onKeyEvent listener         => tree.onKeyEvent listener
  | .onModifiersChanged listener => tree.onModifiersChanged listener
  | .onAction listener           => tree.onAction listener
  | .popNode                     => tree.popNode

/-- The tree as a machine, from a tree that is there. -/
def machine (tree : DispatchTree L) : Machine Panic (DispatchTree L) (Op L) where
  start := tree
  step := fun tree op => some (tree.apply op)

/-- The trees that are built in stack discipline. -/
def Built (tree : DispatchTree L) : Prop :=
  (machine DispatchTree.new).Reaches (fun _ _ => True) tree

/-! ## What writing to a node leaves alone -/

namespace DispatchTree

variable {tree tree' : DispatchTree L} {f : DispatchNode L → DispatchNode L} {nodeId : Nat}

/-- The active node is written, and nothing else. -/
theorem withActiveNode_cases (h : tree.withActiveNode f = .ok (nodeId, tree')) :
    ∃ node, tree.nodeStack.head? = some nodeId ∧ tree.nodes[nodeId]? = some node ∧
      tree' = { tree with nodes := tree.nodes.modify nodeId f } := by
  unfold withActiveNode at h
  split at h
  · cases h
  · next id stack hstack =>
    split at h
    · next hlt =>
      cases h
      exact ⟨_, by rw [hstack]; rfl, List.getElem?_eq_getElem hlt, rfl⟩
    · cases h

/-- Popping changes the stacks only. -/
theorem popNode_cases (h : tree.popNode = .ok tree') :
    ∃ nodeId stack node, tree.nodeStack = nodeId :: stack ∧ tree.nodes[nodeId]? = some node ∧
      tree' = { tree with
        contextStack := if node.context.isSome then tree.contextStack.tail else tree.contextStack
        viewStack := if node.viewId.isSome then tree.viewStack.tail else tree.viewStack
        nodeStack := stack } := by
  unfold popNode at h
  split at h
  · cases h
  · next nodeId stack hstack =>
    unfold getIndex at h
    split at h
    · next node hnode =>
      cases h
      exact ⟨nodeId, stack, node, hstack, hnode, rfl⟩
    · cases h

/-- A context is set on the active node. -/
theorem setKeyContext_cases {context : KeyContext} (h : tree.setKeyContext context = .ok tree') :
    ∃ n node, tree.nodeStack.head? = some n ∧ tree.nodes[n]? = some node ∧
      tree' = { tree with
        nodes := tree.nodes.modify n (fun node => { node with context := some context })
        contextStack := context :: tree.contextStack } := by
  obtain ⟨⟨n, written⟩, hwrite, h⟩ := Exec.bind_eq_ok.mp h
  obtain ⟨node, htop, hnode, rfl⟩ := withActiveNode_cases hwrite
  cases h
  exact ⟨n, node, htop, hnode, rfl⟩

theorem setFocusId_cases {focusId : Nat} (h : tree.setFocusId focusId = .ok tree') :
    ∃ n node, tree.nodeStack.head? = some n ∧ tree.nodes[n]? = some node ∧
      tree' = { tree with
        nodes := tree.nodes.modify n (fun node => { node with focusId := some focusId })
        focusableNodeIds := Function.update tree.focusableNodeIds focusId (some n) } := by
  obtain ⟨⟨n, written⟩, hwrite, h⟩ := Exec.bind_eq_ok.mp h
  obtain ⟨node, htop, hnode, rfl⟩ := withActiveNode_cases hwrite
  cases h
  exact ⟨n, node, htop, hnode, rfl⟩

/-- A view that is entered, or one that is on top already. -/
theorem setViewId_cases {viewId : Nat} (h : tree.setViewId viewId = .ok tree') :
    (tree.viewStack.head? = some viewId ∧ tree' = tree) ∨
    (tree.viewStack.head? ≠ some viewId ∧
      ∃ n node, tree.nodeStack.head? = some n ∧ tree.nodes[n]? = some node ∧
        tree' = { tree with
          nodes := tree.nodes.modify n (fun node => { node with viewId := some viewId })
          viewNodeIds := Function.update tree.viewNodeIds viewId (some n)
          viewStack := viewId :: tree.viewStack }) := by
  unfold setViewId at h
  split at h
  · next hview =>
    cases h
    exact .inl ⟨hview, rfl⟩
  · next hview =>
    obtain ⟨⟨n, written⟩, hwrite, h⟩ := Exec.bind_eq_ok.mp h
    obtain ⟨node, htop, hnode, rfl⟩ := withActiveNode_cases hwrite
    cases h
    exact .inr ⟨hview, n, node, htop, hnode, rfl⟩

/-- A listener is added to the active node: one of the three writes. -/
theorem listener_cases {op : Op L} {listener : L}
    (hop : op = .onKeyEvent listener ∨ op = .onModifiersChanged listener ∨ op = .onAction listener)
    (h : tree.apply op = .ok tree') :
    ∃ n node f, tree.nodeStack.head? = some n ∧ tree.nodes[n]? = some node ∧
      (∀ node : DispatchNode L, (f node).parent = node.parent ∧ (f node).focusId = node.focusId ∧
        (f node).viewId = node.viewId ∧ f node ≠ node) ∧
      tree' = { tree with nodes := tree.nodes.modify n f } := by
  have hne : ∀ l : List L, l ++ [listener] ≠ l := by simp
  rcases hop with rfl | rfl | rfl
  all_goals
    obtain ⟨⟨n, written⟩, hwrite, h⟩ := Exec.bind_eq_ok.mp h
    obtain ⟨node, htop, hnode, rfl⟩ := withActiveNode_cases hwrite
    cases h
    refine ⟨n, node, _, htop, hnode, ?_, rfl⟩
    refine fun node => ⟨rfl, rfl, rfl, fun heq => ?_⟩
  · exact hne _ (congrArg DispatchNode.keyListeners heq)
  · exact hne _ (congrArg DispatchNode.modifiersChangedListeners heq)
  · exact hne _ (congrArg DispatchNode.actionListeners heq)

end DispatchTree

end Gpui.Dispatch
