import Gpui.Keymap.DispatchTree

/-! # Key dispatch: copying a subtree

    A tree that is built in stack discipline lies in preorder: the parent of a node is on
    the path to the node before it.  `reuse_subtree` follows the paths of the source with a
    stack of its own, and opens and closes a node of the target along with every node of
    the source. -/

namespace Gpui.Dispatch

open List

variable {L : Type}

/-! ## Preorder -/

/-- `Preorder parents path`: nodes with these parents lie in preorder, and `path` leads from
    the last of them up to a root. -/
inductive Preorder : List (Option Nat) → List Nat → Prop where
  | nil : Preorder [] []
  | push {parents : List (Option Nat)} {path stack : List Nat} (pre : Preorder parents path)
      (up : stack <:+ path) :
      Preorder (parents ++ [stack.head?]) (parents.length :: stack)

section Preorder

variable {parents : List (Option Nat)} {path : List Nat}

section

variable (pre : Preorder parents path)
include pre

/-- A path goes down in the vector. -/
theorem Preorder.lt : ∀ i ∈ path, i < parents.length := by
  induction pre with
  | nil => exact fun i hi => absurd hi not_mem_nil
  | @push parents path stack _ up ih =>
    intro i hi
    rw [length_append, length_singleton]
    rcases mem_cons.mp hi with rfl | hi
    · omega
    · have := ih i (up.subset hi)
      omega

theorem Preorder.pairwise : path.Pairwise (fun i j => j < i) := by
  induction pre with
  | nil => exact List.Pairwise.nil
  | @push parents path stack pre up ih =>
    exact pairwise_cons.mpr ⟨fun i hi => pre.lt i (up.subset hi), ih.sublist up.sublist⟩

theorem Preorder.take (n : Nat) : ∃ path', Preorder (parents.take n) path' := by
  induction pre with
  | nil => exact ⟨[], by simpa using Preorder.nil⟩
  | @push parents path stack pre up ih =>
    rcases Nat.lt_or_ge parents.length n with hlt | hge
    · refine ⟨parents.length :: stack, ?_⟩
      rw [take_of_length_le (by simpa using hlt)]
      exact .push pre up
    · rw [take_append_of_le_length hge]
      exact ih

/-- A parent comes before its children. -/
theorem Preorder.parent_lt {i p : Nat} (hp : parents[i]? = some (some p)) : p < i := by
  induction pre with
  | nil => cases hp
  | @push parents path stack pre up ih =>
    rcases Nat.lt_or_ge i parents.length with hi | hi
    · rw [getElem?_append_left hi] at hp
      exact ih hp
    · rw [getElem?_append_right hi, getElem?_singleton] at hp
      split at hp
      · have hmem : p ∈ stack := mem_of_mem_head? (Option.some.inj hp)
        have := pre.lt p (up.subset hmem)
        omega
      · cases hp

end

end Preorder

/-- Stack discipline keeps the nodes in preorder, with the open nodes on the last path. -/
def InPreorder (tree : DispatchTree L) : Prop :=
  ∃ path, Preorder (tree.nodes.map DispatchNode.parent) path ∧ tree.nodeStack <:+ path

section Built

variable {tree tree' : DispatchTree L} {f : DispatchNode L → DispatchNode L}

theorem map_parent_modify (nodes : List (DispatchNode L)) (n : Nat)
    (hf : ∀ node, (f node).parent = node.parent) :
    (nodes.modify n f).map DispatchNode.parent = nodes.map DispatchNode.parent := by
  apply ext_getElem?
  intro i
  rw [getElem?_map, getElem?_map, getElem?_modify]
  cases nodes[i]? with
  | none => rfl
  | some node =>
    by_cases h : n = i
    · simp [h, hf]
    · simp [h]

/-- A write to a node that leaves its parent alone. -/
theorem InPreorder.write (h : InPreorder tree) {n : Nat}
    (hnodes : tree'.nodes = tree.nodes.modify n f) (hf : ∀ node, (f node).parent = node.parent)
    (hstack : tree'.nodeStack = tree.nodeStack) : InPreorder tree' := by
  obtain ⟨path, pre, up⟩ := h
  refine ⟨path, ?_, ?_⟩
  · rw [hnodes, map_parent_modify _ _ hf]
    exact pre
  · rw [hstack]
    exact up

theorem InPreorder.pushNode (h : InPreorder tree) : InPreorder tree.pushNode := by
  obtain ⟨path, pre, up⟩ := h
  have hpush := Preorder.push pre up
  rw [length_map] at hpush
  refine ⟨tree.nodes.length :: tree.nodeStack, ?_, suffix_refl _⟩
  show Preorder ((tree.nodes ++ [_]).map DispatchNode.parent) _
  rw [map_append]
  exact hpush

theorem InPreorder.apply (h : InPreorder tree) {op : Op L} (happly : tree.apply op = .ok tree') :
    InPreorder tree' := by
  cases op with
  | pushNode =>
    cases happly
    exact h.pushNode
  | popNode =>
    obtain ⟨path, pre, up⟩ := h
    obtain ⟨nodeId, stack, node, hstack, -, rfl⟩ := DispatchTree.popNode_cases happly
    rw [hstack] at up
    exact ⟨path, pre, (suffix_cons nodeId stack).trans up⟩
  | setKeyContext context =>
    obtain ⟨n, node, -, -, rfl⟩ := DispatchTree.setKeyContext_cases happly
    exact h.write rfl (fun _ => rfl) rfl
  | setFocusId focusId =>
    obtain ⟨n, node, -, -, rfl⟩ := DispatchTree.setFocusId_cases happly
    exact h.write rfl (fun _ => rfl) rfl
  | setViewId viewId =>
    obtain ⟨-, rfl⟩ | ⟨-, n, node, -, -, rfl⟩ := DispatchTree.setViewId_cases happly
    · exact h
    · exact h.write rfl (fun _ => rfl) rfl
  | onKeyEvent listener =>
    obtain ⟨n, node, f, -, -, hf, rfl⟩ := DispatchTree.listener_cases (.inl rfl) happly
    exact h.write rfl (fun node => (hf node).1) rfl
  | onModifiersChanged listener =>
    obtain ⟨n, node, f, -, -, hf, rfl⟩ := DispatchTree.listener_cases (.inr (.inl rfl)) happly
    exact h.write rfl (fun node => (hf node).1) rfl
  | onAction listener =>
    obtain ⟨n, node, f, -, -, hf, rfl⟩ := DispatchTree.listener_cases (.inr (.inr rfl)) happly
    exact h.write rfl (fun node => (hf node).1) rfl

/-- **Trees that are built in stack discipline lie in preorder.** -/
theorem Built.inPreorder (built : Built tree) : InPreorder tree := by
  have hinductive : (machine (DispatchTree.new : DispatchTree L)).Inductive (fun _ _ => True)
      InPreorder :=
    ⟨⟨[], .nil, suffix_refl _⟩, fun tree op tree' h _ happly =>
      h.apply (Option.some.inj happly)⟩
  exact hinductive.holds built

end Built

/-! ## Open nodes -/

/-- The tree has the nodes `opened` open that were not in `base`; their contexts and views
    lie over those of `base`. -/
structure Opened (base tree : DispatchTree L) (opened : List Nat) : Prop where
  nodeStack : tree.nodeStack = opened ++ base.nodeStack
  contextStack : tree.contextStack =
    opened.filterMap (fun i => (tree.nodes[i]?).bind DispatchNode.context) ++ base.contextStack
  viewStack : tree.viewStack =
    opened.filterMap (fun i => (tree.nodes[i]?).bind DispatchNode.viewId) ++ base.viewStack
  lt : ∀ i ∈ opened, i < tree.nodes.length

section Opened

variable {base tree : DispatchTree L} {i : Nat} {opened : List Nat}

/-- **Closing the innermost open node** takes away what opening it put on the stacks. -/
theorem Opened.popNode (h : Opened base tree (i :: opened)) :
    ∃ tree', tree.popNode = .ok tree' ∧ Opened base tree' opened ∧ tree'.nodes = tree.nodes ∧
      tree'.focusableNodeIds = tree.focusableNodeIds ∧ tree'.viewNodeIds = tree.viewNodeIds := by
  have hlt := h.lt i mem_cons_self
  obtain ⟨node, hnode⟩ : ∃ node, tree.nodes[i]? = some node := ⟨_, getElem?_eq_getElem hlt⟩
  have hstack : tree.nodeStack = i :: (opened ++ base.nodeStack) := h.nodeStack
  refine ⟨{ tree with
    contextStack := if node.context.isSome then tree.contextStack.tail else tree.contextStack
    viewStack := if node.viewId.isSome then tree.viewStack.tail else tree.viewStack
    nodeStack := opened ++ base.nodeStack }, ?_, ?_, rfl, rfl, rfl⟩
  · simp only [DispatchTree.popNode, hstack, getIndex_eq_ok hnode, Exec.ok_bind]
  · refine ⟨rfl, ?_, ?_, fun j hj => h.lt j (mem_cons_of_mem _ hj)⟩
    · have hcontexts := h.contextStack
      rw [filterMap_cons, hnode] at hcontexts
      cases hcontext : node.context with
      | none =>
        simp only [Option.bind_some, hcontext] at hcontexts
        simpa using hcontexts
      | some context =>
        simp only [Option.bind_some, hcontext] at hcontexts
        simp [hcontexts]
    · have hviews := h.viewStack
      rw [filterMap_cons, hnode] at hviews
      cases hview : node.viewId with
      | none =>
        simp only [Option.bind_some, hview] at hviews
        simpa using hviews
      | some viewId =>
        simp only [Option.bind_some, hview] at hviews
        simp [hviews]

/-- Closing all open nodes leads back to the stacks of `base`. -/
theorem Opened.popAll : ∀ {opened : List Nat} {tree : DispatchTree L}, Opened base tree opened →
    ∀ sourceStack : List Nat, sourceStack.length = opened.length →
      ∃ tree', DispatchTree.popAll sourceStack tree = .ok tree' ∧ Opened base tree' [] ∧
        tree'.nodes = tree.nodes ∧ tree'.focusableNodeIds = tree.focusableNodeIds ∧
        tree'.viewNodeIds = tree.viewNodeIds
  | [], tree, h, [], _ => ⟨tree, rfl, h, rfl, rfl, rfl⟩
  | i :: opened, tree, h, _ :: sourceStack, hlength => by
      obtain ⟨popped, hpop, hopened, hnodes, hfocus, hview⟩ := h.popNode
      obtain ⟨tree', hpops, hopened', hnodes', hfocus', hview'⟩ :=
        hopened.popAll sourceStack (Nat.succ.inj hlength)
      refine ⟨tree', ?_, hopened', hnodes'.trans hnodes, hfocus'.trans hfocus,
        hview'.trans hview⟩
      rw [DispatchTree.popAll, hpop]
      exact hpops

/-- Closing the open nodes `front` leads to the ones below them: the source's stack is
    popped until its top is the parent, or to its end. -/
theorem Opened.popToParent {shift : Nat → Nat} {parent : Option Nat} {stack : List Nat}
    (hparent : stack = [] ∨ parent = stack.head?) :
    ∀ {front : List Nat} {tree : DispatchTree L}, (∀ i ∈ front, parent ≠ some i) →
      Opened base tree ((front ++ stack).map shift) →
      ∃ tree', DispatchTree.popToParent parent (front ++ stack) tree = .ok (stack, tree') ∧
        Opened base tree' (stack.map shift) ∧ tree'.nodes = tree.nodes ∧
        tree'.focusableNodeIds = tree.focusableNodeIds ∧ tree'.viewNodeIds = tree.viewNodeIds
  | [], tree, _, h => by
      refine ⟨tree, ?_, h, rfl, rfl, rfl⟩
      cases stack with
      | nil => rfl
      | cons i stack =>
        have hparent : parent = some i := hparent.resolve_left (cons_ne_nil _ _)
        rw [nil_append, DispatchTree.popToParent, if_pos hparent]
  | i :: front, tree, hfront, h => by
      obtain ⟨popped, hpop, hopened, hnodes, hfocus, hview⟩ := h.popNode
      obtain ⟨tree', hpops, hopened', hnodes', hfocus', hview'⟩ :=
        Opened.popToParent hparent (fun j hj => hfront j (mem_cons_of_mem _ hj)) hopened
      refine ⟨tree', ?_, hopened', hnodes'.trans hnodes, hfocus'.trans hfocus,
        hview'.trans hview⟩
      rw [cons_append, DispatchTree.popToParent, if_neg (hfront i mem_cons_self), hpop]
      exact hpops

end Opened

/-! ## Copying one node -/

/-- What a node becomes in the target, below its active node and inside its views. -/
def DispatchNode.copyInto (node : DispatchNode L) (target : DispatchTree L) : DispatchNode L :=
  { node with
    viewId := if target.viewStack.head? = node.viewId then none else node.viewId
    parent := target.nodeStack.head? }

def register (id : Option Nat) (nodeId : Nat) (nodeIds : Nat → Option Nat) : Nat → Option Nat :=
  match id with
  | some id => Function.update nodeIds id (some nodeId)
  | none    => nodeIds

theorem register_apply (id : Option Nat) (nodeId : Nat) (nodeIds : Nat → Option Nat) (j : Nat) :
    register id nodeId nodeIds j = if id = some j then some nodeId else nodeIds j := by
  cases id with
  | none => rfl
  | some id => simp [register, Function.update_apply, eq_comm]

section MoveNode

variable {base target : DispatchTree L} {opened : List Nat}

/-- Writing to a node that was just pushed. -/
theorem DispatchTree.withActiveNode_pushed (stack : List Nat) (contexts : List KeyContext)
    (views : List Nat) (nodes : List (DispatchNode L)) (node : DispatchNode L)
    (focusIds viewIds : Nat → Option Nat) (f : DispatchNode L → DispatchNode L) :
    DispatchTree.withActiveNode
        ⟨nodes.length :: stack, contexts, views, nodes ++ [node], focusIds, viewIds⟩ f =
      .ok (nodes.length,
        ⟨nodes.length :: stack, contexts, views, nodes ++ [f node], focusIds, viewIds⟩) := by
  have hlt : nodes.length < (nodes ++ [node]).length := by simp
  have hmodify : (nodes ++ [node]).modify nodes.length f = nodes ++ [f node] := by
    apply ext_getElem?
    intro i
    rcases Nat.lt_trichotomy i nodes.length with hlt | rfl | hgt
    · simp [getElem?_append_left hlt, Nat.ne_of_gt hlt]
    · simp
    · simp [getElem?_eq_none, Nat.succ_le_of_lt hgt]
  simp only [DispatchTree.withActiveNode, if_pos hlt, hmodify]

/-- **Moving a node** pushes a copy that has it all: the context and the view lie on the
    stacks just as they stand on the copy. -/
theorem DispatchTree.moveNode_eq (target : DispatchTree L) (source : DispatchNode L) :
    target.moveNode source = .ok
      ({ nodeStack := target.nodes.length :: target.nodeStack
         contextStack := source.context.toList ++ target.contextStack
         viewStack := (source.copyInto target).viewId.toList ++ target.viewStack
         nodes := target.nodes ++ [source.copyInto target]
         focusableNodeIds :=
           register source.focusId target.nodes.length target.focusableNodeIds
         viewNodeIds :=
           register (source.copyInto target).viewId target.nodes.length target.viewNodeIds },
        source.emptied) := by
  obtain ⟨key, action, modifiers, context, focusId, viewId, parent⟩ := source
  by_cases htop : target.viewStack.head? = viewId <;> cases context <;> cases focusId <;>
    cases viewId <;>
    simp [DispatchTree.moveNode, DispatchTree.pushNode, DispatchTree.setKeyContext,
      DispatchTree.setFocusId, DispatchTree.setViewId, DispatchTree.withActiveNode_pushed,
      Exec.ok_bind, DispatchNode.copyInto, DispatchNode.default, register, htop]

/-- What the open nodes show once a node was pushed: its own, and what they showed. -/
theorem filterMap_pushed {β : Type} (nodes : List (DispatchNode L)) (node : DispatchNode L)
    (field : DispatchNode L → Option β) (hlt : ∀ i ∈ opened, i < nodes.length) :
    (nodes.length :: opened).filterMap (fun i => ((nodes ++ [node])[i]?).bind field) =
      (field node).toList ++ opened.filterMap (fun i => (nodes[i]?).bind field) := by
  have hold : opened.filterMap (fun i => ((nodes ++ [node])[i]?).bind field) =
      opened.filterMap (fun i => (nodes[i]?).bind field) := by
    apply filterMap_congr
    intro i hi
    rw [getElem?_append_left (hlt i hi)]
  rw [filterMap_cons, getElem?_concat_length, Option.bind_some, hold]
  cases field node with
  | none => rfl
  | some value => rfl

/-- A node that was just moved is the innermost open one. -/
theorem Opened.moveNode (h : Opened base target opened) {source source' : DispatchNode L}
    {target' : DispatchTree L} (hmove : target.moveNode source = .ok (target', source')) :
    Opened base target' (target.nodes.length :: opened) := by
  rw [DispatchTree.moveNode_eq] at hmove
  cases hmove
  refine ⟨?_, ?_, ?_, ?_⟩
  · rw [h.nodeStack]
    rfl
  · rw [filterMap_pushed _ _ _ h.lt, h.contextStack, append_assoc]
    rfl
  · rw [filterMap_pushed _ _ _ h.lt, h.viewStack, append_assoc]
  · intro i hi
    rw [length_append, length_singleton]
    rcases mem_cons.mp hi with rfl | hi
    · omega
    · have := h.lt i hi
      omega

end MoveNode

/-! ## Copying a range -/

section Range

variable {target : DispatchTree L} {start : Nat} {focus : Option Nat}

/-- Where the copy of a node lies. -/
def copyId (target : DispatchTree L) (start nodeId : Nat) : Nat :=
  nodeId - start + target.nodes.length

/-- The parent of a copy: the copy of the parent, or the node that is active in the target
    when the parent is not copied. -/
def copyParent (target : DispatchTree L) (start stop : Nat) (parent : Option Nat) : Option Nat :=
  match parent with
  | some parent =>
      if start ≤ parent ∧ parent < stop then some (copyId target start parent)
      else target.nodeStack.head?
  | none => target.nodeStack.head?

/-- A node and its copy.  The view is left out where it is on top already. -/
structure IsCopy (node copy : DispatchNode L) (parent : Option Nat) : Prop where
  parent : copy.parent = parent
  context : copy.context = node.context
  focusId : copy.focusId = node.focusId
  viewId : copy.viewId = node.viewId ∨ copy.viewId = none
  keyListeners : copy.keyListeners = node.keyListeners
  actionListeners : copy.actionListeners = node.actionListeners
  modifiersChangedListeners : copy.modifiersChangedListeners = node.modifiersChangedListeners

/-- The loop after the nodes from `start` on, of which the last one has the given path. -/
structure Reusing (target : DispatchTree L) (start : Nat) (focus : Option Nat)
    (nodes : List (DispatchNode L)) (path : List Nat) (reuse : Reuse L) : Prop where
  sourceStack : reuse.sourceStack = path.filter (start ≤ ·)
  opened : Opened target reuse.target ((path.filter (start ≤ ·)).map (copyId target start))
  kept : target.nodes <+: reuse.target.nodes
  length : reuse.target.nodes.length = copyId target start nodes.length
  copies : ∀ i node, start ≤ i → nodes[i]? = some node →
    ∃ copy, reuse.target.nodes[copyId target start i]? = some copy ∧
      IsCopy node copy (copyParent target start i node.parent)
  moved : reuse.moved = (nodes.drop start).map DispatchNode.emptied
  containsFocus : reuse.containsFocus = true ↔
    ∃ node ∈ nodes.drop start, node.focusId.isSome ∧ node.focusId = focus
  unregistered : ∀ id, (∀ node ∈ nodes.drop start, node.focusId ≠ some id) →
    reuse.target.focusableNodeIds id = target.focusableNodeIds id
  registered : ∀ i node id, start ≤ i → nodes[i]? = some node → node.focusId = some id →
    (∀ j node', i < j → nodes[j]? = some node' → node'.focusId ≠ some id) →
    reuse.target.focusableNodeIds id = some (copyId target start i)

variable {nodes : List (DispatchNode L)} {path stack : List Nat} {reuse : Reuse L}
  {node : DispatchNode L}

/-- Nothing was copied yet. -/
theorem Reusing.initial (hlength : nodes.length = start) (hpath : ∀ i ∈ path, i < start) :
    Reusing target start focus nodes path
      { target := target, sourceStack := [], containsFocus := false, moved := [] } := by
  have hempty : path.filter (start ≤ ·) = [] :=
    filter_eq_nil_iff.mpr fun i hi => by simpa using hpath i hi
  have hdrop : nodes.drop start = [] := drop_eq_nil_of_le (Nat.le_of_eq hlength)
  have hnone : ∀ i node, start ≤ i → nodes[i]? ≠ some node := by
    intro i node hle hnode
    have := (List.getElem?_eq_some_iff.mp hnode).1
    omega
  exact {
    sourceStack := hempty.symm
    opened := by
      rw [hempty]
      exact ⟨rfl, rfl, rfl, fun i hi => absurd hi not_mem_nil⟩
    kept := prefix_refl _
    length := by simp [copyId, hlength]
    copies := fun i node hle hnode => absurd hnode (hnone i node hle)
    moved := by rw [hdrop]; rfl
    containsFocus := by simp [hdrop]
    unregistered := fun id _ => rfl
    registered := fun i node id hle hnode => absurd hnode (hnone i node hle) }

/-- Below a node that is not copied, none is. -/
theorem filter_stack (hpath : stack.Pairwise (fun i j => j < i)) :
    stack.filter (start ≤ ·) = [] ∨ stack.head? = (stack.filter (start ≤ ·)).head? := by
  cases stack with
  | nil => exact .inl rfl
  | cons a rest =>
    by_cases ha : start ≤ a
    · right
      rw [filter_cons_of_pos (by simpa using ha)]
      rfl
    · left
      refine filter_eq_nil_iff.mpr fun i hi => ?_
      rcases mem_cons.mp hi with rfl | hi
      · simpa using ha
      · have := (pairwise_cons.mp hpath).1 i hi
        simp only [decide_eq_true_eq]
        omega

/-- The node that is open in the target when a copy is pushed is the one the copy belongs
    under. -/
theorem head_opened (hpath : stack.Pairwise (fun i j => j < i)) {n : Nat}
    (hlt : ∀ i ∈ stack, i < n) :
    ((stack.filter (start ≤ ·)).map (copyId target start) ++ target.nodeStack).head? =
      copyParent target start n stack.head? := by
  cases stack with
  | nil => rfl
  | cons a rest =>
    have ha : a < n := hlt a mem_cons_self
    simp only [head?_cons, copyParent]
    by_cases hle : start ≤ a
    · rw [filter_cons_of_pos (by simpa using hle), if_pos ⟨hle, ha⟩]
      rfl
    · rw [if_neg (fun h => hle h.1)]
      have hfilter : (a :: rest).filter (start ≤ ·) = [] ∨
          (a :: rest).head? = ((a :: rest).filter (start ≤ ·)).head? := filter_stack hpath
      rcases hfilter with hnil | hhead
      · rw [hnil]
        rfl
      · have hmem : a ∈ (a :: rest).filter (start ≤ ·) := by
          exact mem_of_mem_head? (hhead ▸ rfl)
        exact absurd (by simpa using (mem_filter.mp hmem).2) hle

/-- A node is an older one or the one that was pushed last. -/
theorem getElem?_snoc {i : Nat} {node' : DispatchNode L} (h : (nodes ++ [node])[i]? = some node') :
    nodes[i]? = some node' ∨ i = nodes.length ∧ node' = node := by
  rcases Nat.lt_or_ge i nodes.length with hi | hi
  · rw [getElem?_append_left hi] at h
    exact .inl h
  · rw [getElem?_append_right hi, getElem?_singleton] at h
    split at h
    · exact .inr ⟨by omega, (Option.some.inj h).symm⟩
    · cases h

/-- What is pushed into the target is a copy, below the node that is open there. -/
theorem isCopy_copyInto (node : DispatchNode L) (target : DispatchTree L) :
    IsCopy node (node.copyInto target) target.nodeStack.head? where
  parent := rfl
  context := rfl
  focusId := rfl
  viewId := by
    unfold DispatchNode.copyInto
    split
    · exact .inr rfl
    · exact .inl rfl
  keyListeners := rfl
  actionListeners := rfl
  modifiersChangedListeners := rfl

/-- **One node is copied.**  The open nodes are closed down to the node's parent, which is
    open if it is copied at all, and the node is opened on top of it. -/
theorem Reusing.step (h : Reusing target start focus nodes path reuse)
    (hstart : start ≤ nodes.length) (hlt : ∀ i ∈ path, i < nodes.length)
    (hpath : path.Pairwise (fun i j => j < i)) (up : stack <:+ path)
    (hparent : node.parent = stack.head?) :
    ∃ reuse', DispatchTree.reuseNode focus reuse (node, nodes.length) = .ok reuse' ∧
      Reusing target start focus (nodes ++ [node]) (nodes.length :: stack) reuse' := by
  -- `front` is what is open above the parent, and is closed
  obtain ⟨front, rfl⟩ := up
  obtain ⟨-, hstack, hacross⟩ := pairwise_append.mp hpath
  have hltStack : ∀ i ∈ stack, i < nodes.length := fun i hi =>
    hlt i (mem_append_right front hi)
  have hfront : ∀ i ∈ front.filter (start ≤ ·), node.parent ≠ some i := by
    intro i hi heq
    have hmem : i ∈ stack := mem_of_mem_head? (hparent ▸ heq)
    exact Nat.lt_irrefl i (hacross i (mem_filter.mp hi).1 i hmem)
  have hopen := h.opened
  rw [filter_append] at hopen
  obtain ⟨popped, hpops, hopened, hnodes, hfocus, hview⟩ :=
    Opened.popToParent (hparent ▸ filter_stack hstack) hfront hopen
  -- the copy is pushed, and its focus id registered
  obtain ⟨moved, hmove, hmoved, hids⟩ : ∃ moved,
      popped.moveNode node = .ok (moved, node.emptied) ∧
      moved.nodes = reuse.target.nodes ++ [node.copyInto popped] ∧
      moved.focusableNodeIds = register node.focusId (copyId target start nodes.length)
        reuse.target.focusableNodeIds := by
    refine ⟨_, DispatchTree.moveNode_eq popped node, ?_, ?_⟩
    · rw [hnodes]
    · rw [hnodes, hfocus, h.length]
  have hlength : popped.nodes.length = copyId target start nodes.length := hnodes ▸ h.length
  have hcons : (nodes.length :: stack).filter (start ≤ ·) =
      nodes.length :: stack.filter (start ≤ ·) :=
    filter_cons_of_pos (by simpa using hstart)
  have hdrop : (nodes ++ [node]).drop start = nodes.drop start ++ [node] :=
    drop_append_of_le_length hstart
  refine ⟨{
    target := moved
    sourceStack := nodes.length :: stack.filter (start ≤ ·)
    containsFocus := reuse.containsFocus || (node.focusId.isSome && node.focusId == focus)
    moved := reuse.moved ++ [node.emptied] }, ?_, {
    sourceStack := hcons.symm
    opened := by
      rw [hcons, map_cons, ← hlength]
      exact hopened.moveNode hmove
    kept := by
      rw [hmoved]
      exact h.kept.trans (prefix_append _ _)
    length := by
      simp only [hmoved, length_append, length_singleton, h.length, copyId]
      omega
    copies := ?_
    moved := by rw [hdrop, map_append, h.moved]; rfl
    containsFocus := ?_
    unregistered := ?_
    registered := ?_ }⟩
  · simp only [DispatchTree.reuseNode, h.sourceStack, filter_append, hpops, hmove,
      Exec.ok_bind]
  · intro i node' hle hnode'
    rw [hmoved]
    rcases getElem?_snoc hnode' with hold | ⟨rfl, rfl⟩
    · obtain ⟨copy, hcopy, hiscopy⟩ := h.copies i node' hle hold
      refine ⟨copy, ?_, hiscopy⟩
      rw [List.getElem?_append_left (List.getElem?_eq_some_iff.mp hcopy).1]
      exact hcopy
    · refine ⟨node'.copyInto popped, ?_, ?_⟩
      · rw [← h.length]
        exact getElem?_concat_length
      · rw [hparent, ← head_opened hstack hltStack, ← hopened.nodeStack]
        exact isCopy_copyInto node' popped
  · rw [Bool.or_eq_true, h.containsFocus, hdrop]
    simp [or_and_right, exists_or]
  · intro id hid
    rw [hdrop] at hid
    rw [hids, register_apply, if_neg (hid node (mem_append_right _ mem_cons_self))]
    exact h.unregistered id fun node' hmem => hid node' (mem_append_left _ hmem)
  · intro i node' id hle hnode' hid hlast
    rw [hids, register_apply]
    rcases getElem?_snoc hnode' with hold | ⟨rfl, rfl⟩
    · have hi : i < nodes.length := (List.getElem?_eq_some_iff.mp hold).1
      rw [if_neg (hlast nodes.length node hi getElem?_concat_length)]
      refine h.registered i node' id hle hold hid fun j other hj hother => hlast j other hj ?_
      rw [List.getElem?_append_left (List.getElem?_eq_some_iff.mp hother).1]
      exact hother
    · rw [if_pos hid]

variable (target start focus) in
/-- **The whole loop**, by induction on the nodes in preorder.  The nodes before `start`
    are skipped. -/
theorem Reusing.loop {parents : List (Option Nat)} (pre : Preorder parents path) :
    ∀ {nodes : List (DispatchNode L)}, nodes.map DispatchNode.parent = parents →
      start ≤ nodes.length →
      ∃ reuse, (nodes.zipIdx.drop start).foldlM (DispatchTree.reuseNode focus)
          { target := target, sourceStack := [], containsFocus := false, moved := [] } =
            .ok reuse ∧
        Reusing target start focus nodes path reuse := by
  induction pre with
  | nil =>
    intro nodes hnodes hstart
    obtain rfl : nodes = [] := map_eq_nil_iff.mp hnodes
    obtain rfl : start = 0 := Nat.le_zero.mp hstart
    exact ⟨_, rfl, Reusing.initial rfl fun i hi => absurd hi not_mem_nil⟩
  | @push parents path stack pre up ih =>
    intro nodes hnodes hstart
    obtain ⟨older, last, rfl, holder, hlast⟩ := map_eq_append_iff.mp hnodes
    obtain ⟨node, rfl, hparent⟩ : ∃ node, last = [node] ∧ node.parent = stack.head? := by
      obtain ⟨node, rest, rfl, hnode, hrest⟩ := map_eq_cons_iff.mp hlast
      exact ⟨node, by rw [map_eq_nil_iff.mp hrest], hnode⟩
    have hlength : parents.length = older.length := by rw [← holder, length_map]
    rw [hlength]
    rcases Nat.lt_or_ge older.length start with hskip | hcopy
    · -- the last of the skipped nodes
      rw [length_append, length_singleton] at hstart
      have hdrop : (older ++ [node]).zipIdx.drop start = [] :=
        drop_eq_nil_of_le (by simp; omega)
      rw [hdrop]
      refine ⟨_, rfl, Reusing.initial (by simp; omega) fun i hi => ?_⟩
      rcases mem_cons.mp hi with rfl | hi
      · exact hskip
      · have := pre.lt i (up.subset hi)
        omega
    · obtain ⟨reuse, hloop, hreuse⟩ := ih holder hcopy
      obtain ⟨reuse', hstep, hreuse'⟩ := hreuse.step hcopy
        (fun i hi => hlength ▸ pre.lt i hi) pre.pairwise up hparent
      refine ⟨reuse', ?_, hreuse'⟩
      rw [zipIdx_append, drop_append_of_le_length (by simpa using hcopy),
        foldlM_append, hloop]
      simp only [Exec.ok_bind, zipIdx_singleton, foldlM_cons, foldlM_nil,
        Nat.zero_add, hstep]
      rfl

end Range

/-! ## Copying a subtree -/

/-- What is expected of a copied range: the new nodes lie behind the old ones in the same
    order, each below the copy of its parent or else below the active node; the
    listeners were moved to them, the focus ids lead to them, and the stacks are as
    before. -/
structure Copied (target source : DispatchTree L) (start stop : Nat) (focus : Option Nat)
    (reused : ReusedSubtree) (target' source' : DispatchTree L) : Prop where
  oldRange : reused.oldRange = (start, stop)
  newRange : reused.newRange = (target.nodes.length, target'.nodes.length)
  length : target'.nodes.length = target.nodes.length + (stop - start)
  kept : target.nodes <+: target'.nodes
  copies : ∀ i node, start ≤ i → i < stop → source.nodes[i]? = some node →
    reused.refreshNodeId i = .ok (copyId target start i) ∧
    ∃ copy, target'.nodes[copyId target start i]? = some copy ∧
      IsCopy node copy (copyParent target start stop node.parent)
  moved : ∀ i, source'.nodes[i]? =
    if start ≤ i ∧ i < stop then source.nodes[i]?.map DispatchNode.emptied else source.nodes[i]?
  sourceRest : source' = { source with nodes := source'.nodes }
  containsFocus : reused.containsFocus = true ↔
    ∃ i node, start ≤ i ∧ i < stop ∧ source.nodes[i]? = some node ∧
      node.focusId.isSome ∧ node.focusId = focus
  unregistered : ∀ id,
    (∀ i node, start ≤ i → i < stop → source.nodes[i]? = some node → node.focusId ≠ some id) →
    target'.focusableNodeIds id = target.focusableNodeIds id
  registered : ∀ i node id, start ≤ i → i < stop → source.nodes[i]? = some node →
    node.focusId = some id →
    (∀ j node', i < j → j < stop → source.nodes[j]? = some node' → node'.focusId ≠ some id) →
    target'.focusableNodeIds id = some (copyId target start i)
  nodeStack : target'.nodeStack = target.nodeStack
  contextStack : target'.contextStack = target.contextStack
  viewStack : target'.viewStack = target.viewStack

/-- A parent that is copied comes before the node, so the range may as well end there. -/
theorem copyParent_upTo {target : DispatchTree L} {start i stop : Nat} {parent : Option Nat}
    (hle : i ≤ stop) (hparent : ∀ p, parent = some p → p < i) :
    copyParent target start i parent = copyParent target start stop parent := by
  cases parent with
  | none => rfl
  | some p =>
    have hlt : p < i := hparent p rfl
    have hlt' : p < stop := Nat.lt_of_lt_of_le hlt hle
    simp only [copyParent, hlt, hlt']

theorem zipIdx_slice (nodes : List (DispatchNode L)) (start stop : Nat) :
    (nodes.zipIdx.drop start).take (stop - start) = (nodes.take stop).zipIdx.drop start := by
  rw [← drop_take]
  congr 1
  apply ext_getElem?
  intro i
  simp only [getElem?_take, getElem?_zipIdx]
  split
  · rfl
  · rfl

theorem mem_slice_iff (nodes : List (DispatchNode L)) (start stop : Nat) (node : DispatchNode L) :
    node ∈ (nodes.take stop).drop start ↔
      ∃ i, start ≤ i ∧ i < stop ∧ nodes[i]? = some node := by
  constructor
  · intro hmem
    obtain ⟨i, hi⟩ := getElem?_of_mem hmem
    rw [getElem?_drop, getElem?_take] at hi
    split at hi
    · next hlt => exact ⟨start + i, Nat.le_add_right _ _, hlt, hi⟩
    · cases hi
  · intro h
    obtain ⟨i, hle, hlt, hnode⟩ := h
    refine mem_of_getElem? (i := i - start) ?_
    rw [getElem?_drop, Nat.add_sub_cancel' hle, getElem?_take_of_lt hlt]
    exact hnode

/-- The source's nodes after those of a range were changed. -/
theorem getElem?_changed (nodes : List (DispatchNode L)) (f : DispatchNode L → DispatchNode L)
    {start stop : Nat} (hrange : start ≤ stop) (hstop : stop ≤ nodes.length) (i : Nat) :
    (nodes.take start ++ ((nodes.take stop).drop start).map f ++ nodes.drop stop)[i]? =
      if start ≤ i ∧ i < stop then nodes[i]?.map f else nodes[i]? := by
  have hbefore : (nodes.take start).length = start := by
    rw [length_take]
    omega
  have hrangeLength : (((nodes.take stop).drop start).map f).length = stop - start := by
    rw [length_map, length_drop, length_take]
    omega
  rcases Nat.lt_or_ge i start with hi | hi
  · rw [if_neg (by omega), append_assoc, getElem?_append_left (by omega),
      getElem?_take_of_lt hi]
  · rcases Nat.lt_or_ge i stop with hlt | hge
    · rw [if_pos ⟨hi, hlt⟩, append_assoc, getElem?_append_right (by omega),
        getElem?_append_left (by omega), getElem?_map, getElem?_drop, hbefore,
        Nat.add_sub_cancel' hi, getElem?_take_of_lt hlt]
    · rw [if_neg (by omega), append_assoc, getElem?_append_right (by omega),
        getElem?_append_right (by omega), getElem?_drop, hbefore, hrangeLength]
      congr 1
      omega

/-- **A subtree is copied faithfully**: any range of a tree that was built in stack
    discipline, into any tree.  The range may hold several roots. -/
theorem reuseSubtree_spec {source : DispatchTree L} (built : Built source)
    (target : DispatchTree L) {start stop : Nat} (hrange : start ≤ stop)
    (hstop : stop ≤ source.nodes.length) (focus : Option Nat) :
    ∃ reused target' source',
      target.reuseSubtree start stop source focus = .ok (reused, target', source') ∧
      Copied target source start stop focus reused target' source' := by
  -- the nodes below `stop` are in preorder too, and the loop skips those below `start`
  obtain ⟨path, pre, -⟩ := built.inPreorder
  obtain ⟨path', pre'⟩ := pre.take stop
  have hlength : (source.nodes.take stop).length = stop := by
    rw [length_take, Nat.min_eq_left hstop]
  obtain ⟨reuse, hloop, hreuse⟩ :=
    Reusing.loop target start focus pre' map_take (hlength.symm ▸ hrange)
  obtain ⟨target', hpops, hclosed, hnodes, hfocus, -⟩ :=
    hreuse.opened.popAll reuse.sourceStack (by rw [length_map, hreuse.sourceStack])
  have hget : ∀ {i}, i < stop → (source.nodes.take stop)[i]? = source.nodes[i]? :=
    fun hi => getElem?_take_of_lt hi
  have htaken : ∀ {i node}, (source.nodes.take stop)[i]? = some node → i < stop :=
    fun hnode => hlength ▸ (List.getElem?_eq_some_iff.mp hnode).1
  have hmem := mem_slice_iff source.nodes start stop
  have hmoved : reuse.moved.length = stop - start := by
    rw [hreuse.moved, length_map, length_drop, hlength]
  have hlen : target'.nodes.length = target.nodes.length + (stop - start) := by
    rw [hnodes, hreuse.length, hlength, copyId, Nat.add_comm]
  refine ⟨⟨(start, stop), (target.nodes.length, target.nodes.length + (stop - start)),
      reuse.containsFocus⟩, target',
    { source with
      nodes := source.nodes.take start ++ reuse.moved ++
        source.nodes.drop (start + reuse.moved.length) }, ?_, {
    oldRange := rfl
    newRange := by rw [hlen]
    length := hlen
    kept := by rw [hnodes]; exact hreuse.kept
    copies := ?_
    moved := ?_
    sourceRest := rfl
    containsFocus := ?_
    unregistered := ?_
    registered := ?_
    nodeStack := hclosed.nodeStack
    contextStack := hclosed.contextStack
    viewStack := hclosed.viewStack }⟩
  · simp only [DispatchTree.reuseSubtree, zipIdx_slice, hloop, Exec.ok_bind, hpops]
  · intro i node hle hlt hnode
    refine ⟨?_, ?_⟩
    · rw [ReusedSubtree.refreshNodeId, if_pos ⟨hle, hlt⟩]
      rfl
    · obtain ⟨copy, hcopy, hiscopy⟩ := hreuse.copies i node hle ((hget hlt).trans hnode)
      refine ⟨copy, hnodes ▸ hcopy, ?_⟩
      rw [← copyParent_upTo (Nat.le_of_lt hlt) fun p hp => pre.parent_lt (by simp [hnode, hp])]
      exact hiscopy
  · intro i
    rw [← getElem?_changed source.nodes DispatchNode.emptied hrange hstop i, ← hreuse.moved, hmoved,
      Nat.add_sub_cancel' hrange]
  · rw [hreuse.containsFocus]
    simp only [hmem]
    constructor
    · rintro ⟨node, ⟨i, hle, hlt, hnode⟩, hfocus⟩
      exact ⟨i, node, hle, hlt, hnode, hfocus⟩
    · rintro ⟨i, node, hle, hlt, hnode, hfocus⟩
      exact ⟨node, ⟨i, hle, hlt, hnode⟩, hfocus⟩
  · intro id hid
    rw [hfocus]
    refine hreuse.unregistered id fun node hnode => ?_
    obtain ⟨i, hle, hlt, hnode⟩ := (hmem node).mp hnode
    exact hid i node hle hlt hnode
  · intro i node id hle hlt hnode hid hlast
    rw [hfocus]
    refine hreuse.registered i node id hle ((hget hlt).trans hnode) hid fun j node' hj hnode' => ?_
    exact hlast j node' hj (htaken hnode') (hget (htaken hnode') ▸ hnode')

/-- A view's subtree of two nodes, of which the outer one is focused, in an empty tree. -/
theorem reuseSubtree_spec_focused :
    let source : DispatchTree Nat := {
      nodeStack := []
      contextStack := []
      viewStack := []
      nodes := [⟨[], [], [], none, some 7, none, none⟩, ⟨[], [], [], none, none, none, some 0⟩]
      focusableNodeIds := Function.update (fun _ => none) 7 (some 0)
      viewNodeIds := fun _ => none }
    Built source ∧ ∃ reused target' source',
      (DispatchTree.new : DispatchTree Nat).reuseSubtree 0 2 source (some 7) =
        .ok (reused, target', source') ∧
      Copied DispatchTree.new source 0 2 (some 7) reused target' source' := by
  intro source
  have built : Built source :=
    .step .popNode (.step .popNode (.step .pushNode (.step (.setFocusId 7)
      (.step .pushNode .start trivial rfl) trivial rfl) trivial rfl) trivial rfl) trivial rfl
  exact ⟨built, reuseSubtree_spec built DispatchTree.new (Nat.zero_le 2) (Nat.le_refl 2) (some 7)⟩

end Gpui.Dispatch
