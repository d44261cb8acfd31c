import Gpui.Keymap.Rollback
import Gpui.Window.Transact

/-! # Prepaint transactions leave no trace, if they write no ids

    Cutting lists back to a remembered length undoes what was appended to them.  It does not
    undo the focus of the frame, ids that were registered before, and the stack of views
    where a node enters two.

    The rollback of the dispatch tree itself is the subject of another module; here it is one
    part of the frame, and the stacks of the tree are looked at too: they are as they were
    when all calls of the transaction have returned. -/

namespace Gpui

open List

open Exec (map_eq_ok)

open Dispatch

variable {X L T E K S : Type}

/-! ## Lists that only grow -/

/-- The lists of a frame begin with those of another. -/
structure PrepaintFrame.Appended (recorded frame : PrepaintFrame X L T E K S) : Prop where
  hitboxes : recorded.hitboxes <+: frame.hitboxes
  tooltipRequests : recorded.tooltipRequests <+: frame.tooltipRequests
  deferredDraws : recorded.deferredDraws <+: frame.deferredDraws
  accessedElementStates : recorded.accessedElementStates <+: frame.accessedElementStates

/-- The lists of the two frames are the same. -/
theorem PrepaintFrame.Appended.of_eq {a b : PrepaintFrame X L T E K S}
    (hhitboxes : a.hitboxes = b.hitboxes) (htooltips : a.tooltipRequests = b.tooltipRequests)
    (hdraws : a.deferredDraws = b.deferredDraws)
    (hstates : a.accessedElementStates = b.accessedElementStates) : a.Appended b where
  hitboxes := by rw [hhitboxes]
  tooltipRequests := by rw [htooltips]
  deferredDraws := by rw [hdraws]
  accessedElementStates := by rw [hstates]

theorem PrepaintFrame.Appended.trans {a b c : PrepaintFrame X L T E K S} (hab : a.Appended b)
    (hbc : b.Appended c) : a.Appended c where
  hitboxes := hab.hitboxes.trans hbc.hitboxes
  tooltipRequests := hab.tooltipRequests.trans hbc.tooltipRequests
  deferredDraws := hab.deferredDraws.trans hbc.deferredDraws
  accessedElementStates := hab.accessedElementStates.trans hbc.accessedElementStates

variable [Field X] [LinearOrder X]

namespace Transaction

abbrev tree (s : Transaction X L T E K S) : Dispatch.DispatchTree L :=
  s.window.nextFrame.dispatchTree

/-- The step is undone if the transaction fails. -/
def Undone (recorded : PrepaintWindow X L T E K S) (s : Transaction X L T E K S) :
    PrepaintOp X T E K S → Prop
  | .setFocusHandle id =>
      Undoable recorded.nextFrame.dispatchTree s.tree (.setFocusId id) ∧
        (s.window.focus = some id → recorded.nextFrame.focus = some id)
  | .setViewId viewId =>
      s.tree.viewStack.head? = some viewId ∨
        -- the active node is one of the transaction
        .element ∈ s.calls ∧ ∀ n node,
          s.tree.nodeStack.head? = some n → s.tree.nodes[n]? = some node →
          node.viewId = none ∧ recorded.nextFrame.dispatchTree.viewNodeIds viewId = none
  | _ => True

/-! ## The open nodes -/

/-- The views of some nodes. -/
def viewsOf (nodes : List (Dispatch.DispatchNode L)) (opened : List Nat) : List Nat :=
  opened.filterMap fun n => nodes[n]?.bind Dispatch.DispatchNode.viewId

/-- How many nodes the open calls have pushed. -/
def openElements : List (PrepaintCall K) → Nat
  | []                         => 0
  | .element :: calls          => openElements calls + 1
  | .elementState _ :: calls   => openElements calls

/-- The transaction has these nodes open, on top of those that were there. -/
structure Opened (recorded tree : Dispatch.DispatchTree L) (calls : List (PrepaintCall K))
    (opened : List Nat) : Prop where
  nodeStack : tree.nodeStack = opened ++ recorded.nodeStack
  length : opened.length = openElements calls
  new : ∀ n ∈ opened, recorded.len ≤ n ∧ n < tree.nodes.length
  nodup : opened.Nodup
  contextStack : tree.contextStack = recorded.contextStack
  /-- A prepaint sets no key contexts. -/
  noContext : ∀ n node, recorded.len ≤ n → tree.nodes[n]? = some node → node.context = none

section Opened

variable {recorded tree tree' : Dispatch.DispatchTree L} {calls : List (PrepaintCall K)}
  {opened : List Nat}

theorem opened_start (recorded : Dispatch.DispatchTree L) :
    Opened recorded recorded ([] : List (PrepaintCall K)) [] where
  nodeStack := rfl
  length := rfl
  new := fun _ h => absurd h not_mem_nil
  nodup := nodup_nil
  contextStack := rfl
  noContext := fun _ _ hle hnode =>
    absurd (List.getElem?_eq_some_iff.1 hnode).1 (Nat.not_lt.2 hle)

theorem Opened.pushNode (h : Opened recorded tree calls opened)
    (hlen : recorded.len ≤ tree.nodes.length) :
    Opened recorded tree.pushNode (.element :: calls) (tree.nodes.length :: opened) where
  nodeStack := by
    show tree.nodes.length :: tree.nodeStack = _
    rw [h.nodeStack]
    rfl
  length := by rw [length_cons, h.length]; rfl
  new := by
    have hgrows : tree.pushNode.nodes.length = tree.nodes.length + 1 := length_append
    intro n hn
    rw [hgrows]
    rcases mem_cons.1 hn with rfl | hn
    · exact ⟨hlen, Nat.lt_succ_self _⟩
    · exact ⟨(h.new n hn).1, Nat.lt_succ_of_lt (h.new n hn).2⟩
  nodup := nodup_cons.2 ⟨fun hmem => absurd (h.new _ hmem).2 (Nat.lt_irrefl _), h.nodup⟩
  contextStack := h.contextStack
  noContext := by
    intro n node hle hnode
    change (tree.nodes ++ [_])[n]? = some node at hnode
    rcases Nat.lt_or_ge n tree.nodes.length with hlt | hge
    · rw [getElem?_append_left hlt] at hnode
      exact h.noContext n node hle hnode
    · rw [getElem?_append_right hge, getElem?_singleton] at hnode
      split at hnode
      · cases hnode
        rfl
      · cases hnode

/-- A node is written, but not its context. -/
theorem Opened.modify (h : Opened recorded tree calls opened) {n : Nat}
    {f : Dispatch.DispatchNode L → Dispatch.DispatchNode L}
    (hf : ∀ node, (f node).context = node.context)
    (hnodes : tree'.nodes = tree.nodes.modify n f) (hstack : tree'.nodeStack = tree.nodeStack)
    (hcontext : tree'.contextStack = tree.contextStack) : Opened recorded tree' calls opened where
  nodeStack := hstack.trans h.nodeStack
  length := h.length
  new := by
    intro m hm
    rw [hnodes, length_modify]
    exact h.new m hm
  nodup := h.nodup
  contextStack := hcontext.trans h.contextStack
  noContext := by
    intro m node hle hnode
    rw [hnodes, getElem?_modify] at hnode
    obtain ⟨node', hnode', rfl⟩ := Option.map_eq_some_iff.1 hnode
    have hnone := h.noContext m node' hle hnode'
    split
    · rw [hf]
      exact hnone
    · exact hnone

/-- The element that is open last is the last to be pushed, and can be popped. -/
theorem Opened.popNode (h : Opened recorded tree (.element :: calls) opened) :
    ∃ n rest node tree', opened = n :: rest ∧ tree.nodes[n]? = some node ∧
      tree.popNode = .ok tree' ∧ Opened recorded tree' calls rest ∧
      tree'.viewStack = (if node.viewId.isSome then tree.viewStack.tail else tree.viewStack) ∧
      tree'.nodes = tree.nodes ∧ tree'.focusableNodeIds = tree.focusableNodeIds ∧
      tree'.viewNodeIds = tree.viewNodeIds := by
  obtain ⟨n, rest, rfl⟩ : ∃ n rest, opened = n :: rest := by
    cases opened with
    | nil => exact absurd h.length (by simp [openElements])
    | cons n rest => exact ⟨n, rest, rfl⟩
  obtain ⟨hle, hlt⟩ := h.new n mem_cons_self
  have hnode : tree.nodes[n]? = some tree.nodes[n] := getElem?_eq_getElem hlt
  have hstack : tree.nodeStack = n :: (rest ++ recorded.nodeStack) := h.nodeStack
  have hcontext := h.noContext n _ hle hnode
  refine ⟨n, rest, tree.nodes[n],
    { tree with
      contextStack := tree.contextStack
      viewStack := if tree.nodes[n].viewId.isSome then tree.viewStack.tail else tree.viewStack
      nodeStack := rest ++ recorded.nodeStack },
    rfl, hnode, ?_, ?_, rfl, rfl, rfl, rfl⟩
  · unfold Dispatch.DispatchTree.popNode getIndex
    rw [hstack]
    dsimp only
    rw [hnode]
    simp only [Exec.ok_bind, hcontext, Option.isSome_none, Bool.false_eq_true, if_false]
  · exact {
      nodeStack := rfl
      length := Nat.succ.inj h.length
      new := fun m hm => h.new m (mem_cons_of_mem _ hm)
      nodup := (nodup_cons.1 h.nodup).2
      contextStack := h.contextStack
      noContext := h.noContext }

theorem openElements_pos_iff : 0 < openElements calls ↔ .element ∈ calls := by
  induction calls with
  | nil => simp [openElements]
  | cons call calls ih =>
    cases call with
    | element => simp [openElements]
    | elementState key => simpa [openElements] using ih

/-- The node that is written in an open call. -/
theorem Opened.active (h : Opened recorded tree calls opened) (hcalls : .element ∈ calls) {n : Nat}
    (hstack : tree.nodeStack.head? = some n) : ∃ rest, opened = n :: rest := by
  cases opened with
  | nil => exact absurd (openElements_pos_iff.2 hcalls) (by rw [← h.length]; exact Nat.lt_irrefl 0)
  | cons m rest =>
    rw [h.nodeStack] at hstack
    cases hstack
    exact ⟨rest, rfl⟩

end Opened

/-! ## What a step does -/

abbrev frame (s : Transaction X L T E K S) : PrepaintFrame X L T E K S := s.window.nextFrame

/-- Writing the tree writes nothing else. -/
theorem writeTree_cases {window window' : PrepaintWindow X L T E K S} {op : Op L}
    (h : window.writeTree op = .ok window') :
    ∃ tree, window.nextFrame.dispatchTree.apply op = .ok tree ∧
      window' = { window with nextFrame := { window.nextFrame with dispatchTree := tree } } := by
  obtain ⟨tree, happly, rfl⟩ := map_eq_ok.1 h
  exact ⟨tree, happly, rfl⟩

section Step

variable [DecidableEq K] {recorded : PrepaintWindow X L T E K S} {s s' : Transaction X L T E K S}
  {op : PrepaintOp X T E K S} {opened : List Nat}

/-- A focus handle is set: the tree is written, and the focus if the handle has it. -/
theorem setFocusHandle_cases {id : Nat} (h : s.step (.setFocusHandle id) = some (.ok s')) :
    ∃ tree, s.tree.setFocusId id = .ok tree ∧ s' = { s with window := { s.window with
      nextFrame := { s.frame with
        dispatchTree := tree
        focus := if s.window.focus = some id then some id else s.frame.focus } } } := by
  obtain ⟨window, hwindow, rfl⟩ := map_eq_ok.1 (Option.some.inj h)
  obtain ⟨tree, happly, rfl⟩ := writeTree_cases hwindow
  refine ⟨tree, ?_, ?_⟩
  · split at happly <;> exact happly
  · split <;> rfl

theorem setViewId_cases {viewId : Nat} (h : s.step (.setViewId viewId) = some (.ok s')) :
    ∃ tree, s.tree.setViewId viewId = .ok tree ∧ s' = { s with window := { s.window with
      nextFrame := { s.frame with dispatchTree := tree } } } := by
  obtain ⟨window, hwindow, rfl⟩ := map_eq_ok.1 (Option.some.inj h)
  obtain ⟨tree, happly, rfl⟩ := writeTree_cases hwindow
  exact ⟨tree, happly, rfl⟩

theorem popNode_cases (h : s.step .popNode = some (.ok s')) :
    ∃ tree calls, s.calls = .element :: calls ∧ s.tree.popNode = .ok tree ∧
      s' = ⟨{ s.window with nextFrame := { s.frame with dispatchTree := tree } }, calls⟩ := by
  unfold Transaction.step at h
  dsimp only at h
  split at h
  · next calls hcalls =>
    obtain ⟨window, hwindow, rfl⟩ := map_eq_ok.1 (Option.some.inj h)
    obtain ⟨tree, happly, rfl⟩ := writeTree_cases hwindow
    exact ⟨tree, calls, hcalls, happly, rfl⟩
  · cases h

theorem putElementState_cases {state : S} (h : s.step (.putElementState state) = some (.ok s')) :
    ∃ key calls, s.calls = .elementState key :: calls ∧
      s' = ⟨s.window.putElementState key state, calls⟩ := by
  unfold Transaction.step at h
  dsimp only at h
  split at h
  · next key calls hcalls =>
    cases h
    exact ⟨key, calls, hcalls, rfl⟩
  · cases h

/-- The state that is taken is in the map of the one frame or of the other. -/
theorem takeElementState_frame (window : PrepaintWindow X L T E K S) (key : K) :
    ∃ elementStates, (window.takeElementState key).nextFrame = { window.nextFrame with
      accessedElementStates := window.nextFrame.accessedElementStates ++ [key]
      elementStates := elementStates } := by
  unfold PrepaintWindow.takeElementState
  dsimp only
  split
  · exact ⟨_, rfl⟩
  · exact ⟨_, rfl⟩

/-- **A step** appends to the lists. -/
theorem step_appended (h : s.step op = some (.ok s')) : s.frame.Appended s'.frame := by
  cases op with
  | insertHitbox bounds contentMask behavior =>
    cases h
    exact ⟨prefix_append _ _, prefix_rfl, prefix_rfl, prefix_rfl⟩
  | setTooltip tooltip =>
    cases h
    exact ⟨prefix_rfl, prefix_append _ _, prefix_rfl, prefix_rfl⟩
  | deferDraw currentView priority element =>
    obtain ⟨window, hwindow, rfl⟩ := map_eq_ok.1 (Option.some.inj h)
    unfold PrepaintWindow.deferDraw at hwindow
    split at hwindow
    · cases hwindow
    · cases hwindow
      exact ⟨prefix_rfl, prefix_rfl, prefix_append _ _, prefix_rfl⟩
  | pushNode | layoutLine _ _ _ _ =>
    cases h
    exact .of_eq rfl rfl rfl rfl
  | popNode =>
    obtain ⟨tree, calls, -, -, rfl⟩ := popNode_cases h
    exact .of_eq rfl rfl rfl rfl
  | setFocusHandle id =>
    obtain ⟨tree, -, rfl⟩ := setFocusHandle_cases h
    exact .of_eq rfl rfl rfl rfl
  | setViewId viewId =>
    obtain ⟨tree, -, rfl⟩ := setViewId_cases h
    exact .of_eq rfl rfl rfl rfl
  | takeElementState key =>
    cases h
    obtain ⟨elementStates, hframe⟩ := takeElementState_frame s.window key
    show s.frame.Appended (s.window.takeElementState key).nextFrame
    rw [hframe]
    exact ⟨prefix_rfl, prefix_rfl, prefix_rfl, prefix_append _ _⟩
  | putElementState state =>
    obtain ⟨key, calls, -, rfl⟩ := putElementState_cases h
    exact .of_eq rfl rfl rfl rfl
  | layoutWrappedLine text fontSize runs wrapWidth maxLines =>
    obtain ⟨window, hwindow, rfl⟩ := map_eq_ok.1 (Option.some.inj h)
    obtain ⟨laidOut, -, rfl⟩ := map_eq_ok.1 hwindow
    exact .of_eq rfl rfl rfl rfl

end Step

/-! ## The views of the open nodes -/

section Views

variable {nodes nodes' : List (Dispatch.DispatchNode L)} {opened : List Nat} {n viewId : Nat}
  {node : Dispatch.DispatchNode L}

theorem viewsOf_cons (h : nodes[n]? = some node) :
    viewsOf nodes (n :: opened) = node.viewId.toList ++ viewsOf nodes opened := by
  unfold viewsOf
  rw [filterMap_cons, h]
  cases hview : node.viewId with
  | none => simp [hview]
  | some viewId => simp [hview]

theorem viewsOf_congr (h : ∀ m ∈ opened,
    nodes'[m]?.bind Dispatch.DispatchNode.viewId = nodes[m]?.bind Dispatch.DispatchNode.viewId) :
    viewsOf nodes' opened = viewsOf nodes opened :=
  filterMap_congr h

variable {f : Dispatch.DispatchNode L → Dispatch.DispatchNode L}

/-- A node is written, but not its view. -/
theorem viewsOf_modify (hf : ∀ node, (f node).viewId = node.viewId) :
    viewsOf (nodes.modify n f) opened = viewsOf nodes opened := by
  apply viewsOf_congr
  intro m _
  rw [getElem?_modify]
  cases nodes[m]? with
  | none => rfl
  | some node =>
    show (if n = m then f node else node).viewId = node.viewId
    split
    · exact hf node
    · rfl

/-- A node that is not open is written. -/
theorem viewsOf_modify_of_notMem (hn : n ∉ opened) :
    viewsOf (nodes.modify n f) opened = viewsOf nodes opened := by
  apply viewsOf_congr
  intro m hm
  have hne : n ≠ m := by
    rintro rfl
    exact hn hm
  rw [getElem?_modify_ne f _ hne]

theorem viewsOf_append (h : ∀ m ∈ opened, m < nodes.length) :
    viewsOf (nodes ++ [node]) opened = viewsOf nodes opened := by
  apply viewsOf_congr
  intro m hm
  rw [getElem?_append_left (h m hm)]

/-- The view of the node that is open last is on top. -/
theorem viewsOf_setViewId (h : nodes[n]? = some node) (hn : n ∉ opened) :
    viewsOf (nodes.modify n fun node => { node with viewId := some viewId }) (n :: opened) =
      viewId :: viewsOf nodes opened := by
  have hwritten : (nodes.modify n fun node => { node with viewId := some viewId })[n]? =
      some { node with viewId := some viewId } := by
    rw [getElem?_modify_eq, h]
    rfl
  rw [viewsOf_cons hwritten, viewsOf_modify_of_notMem hn]
  rfl

end Views

/-! ## What every undone step keeps -/

/-- Cutting the lists and the tree back makes the frame what it was. -/
structure Rolls (recorded : PrepaintWindow X L T E K S) (s : Transaction X L T E K S)
    (opened : List Nat) : Prop where
  lists : recorded.nextFrame.Appended s.frame
  focus : s.frame.focus = recorded.nextFrame.focus
  kept : Kept recorded.nextFrame.dispatchTree s.tree
  calls : Opened recorded.nextFrame.dispatchTree s.tree s.calls opened
  views : s.tree.viewStack =
    viewsOf s.tree.nodes opened ++ recorded.nextFrame.dispatchTree.viewStack

section Rolls

variable {recorded : PrepaintWindow X L T E K S} {s s' : Transaction X L T E K S}
  {op : PrepaintOp X T E K S} {opened : List Nat}

theorem rolls_start (recorded : PrepaintWindow X L T E K S) : Rolls recorded ⟨recorded, []⟩ [] where
  lists := .of_eq rfl rfl rfl rfl
  focus := rfl
  kept := kept_start _
  calls := opened_start _
  views := rfl

/-- The tree is cut back to what it was, with its stacks. -/
theorem Rolls.truncate (h : Rolls recorded s []) :
    s.tree.truncate recorded.nextFrame.dispatchTree.len = .ok recorded.nextFrame.dispatchTree := by
  rw [truncate_eq h.kept.len_le, h.kept.nodes, h.kept.focusIds.restored, h.kept.viewIds.restored,
    h.views, h.calls.nodeStack, h.calls.contextStack]
  rfl

theorem Rolls.leavesNoTrace (h : Rolls recorded s opened) : s.LeavesNoTrace recorded := by
  intro hcalls
  obtain rfl : opened = [] := by
    have hlength := h.calls.length
    rw [hcalls] at hlength
    exact length_eq_zero_iff.1 hlength
  refine ⟨_, Exec.bind_eq_ok.2 ⟨_, h.truncate, rfl⟩, ?_⟩
  exact {
    hitboxes := (prefix_iff_eq_take.1 h.lists.hitboxes).symm
    tooltipRequests := (prefix_iff_eq_take.1 h.lists.tooltipRequests).symm
    deferredDraws := (prefix_iff_eq_take.1 h.lists.deferredDraws).symm
    dispatchTree := rfl
    accessedElementStates := (prefix_iff_eq_take.1 h.lists.accessedElementStates).symm
    focus := h.focus }

variable [DecidableEq K]

section

variable (h : Rolls recorded s opened)
include h

/-- A step that leaves the tree and the focus alone. -/
theorem Rolls.leave (hstep : s.step op = some (.ok s')) (hfocus : s'.frame.focus = s.frame.focus)
    (htree : s'.tree = s.tree) (hcalls : openElements s'.calls = openElements s.calls) :
    Rolls recorded s' opened where
  lists := h.lists.trans (step_appended hstep)
  focus := hfocus.trans h.focus
  kept := by
    rw [htree]
    exact h.kept
  calls := by
    rw [htree]
    exact { h.calls with length := h.calls.length.trans hcalls.symm }
  views := by
    rw [htree]
    exact h.views

/-- A view is entered on a node of the transaction that has none. -/
theorem Rolls.setViewId {viewId : Nat} (hundone : Undone recorded s (.setViewId viewId))
    (hstep : s.step (.setViewId viewId) = some (.ok s')) : Rolls recorded s' opened := by
  obtain ⟨tree, hset, rfl⟩ := setViewId_cases hstep
  rcases Dispatch.DispatchTree.setViewId_cases hset with
    ⟨-, rfl⟩ | ⟨htop, n, node, hstack, hnode, rfl⟩
  · exact h.leave hstep rfl rfl rfl
  · obtain ⟨hcalls, hnew⟩ := hundone.resolve_left htop
    obtain ⟨hview, hfresh⟩ := hnew n node hstack hnode
    obtain ⟨rest, rfl⟩ := h.calls.active hcalls hstack
    have hmay : MayRegister recorded.nextFrame.dispatchTree.len Dispatch.DispatchNode.viewId
        recorded.nextFrame.dispatchTree.viewNodeIds s.tree.nodes n viewId := by
      intro node' hnode'
      obtain rfl : node = node' := Option.some.inj (hnode.symm.trans hnode')
      rw [if_pos (h.calls.new n mem_cons_self).1, hview]
      exact ⟨hfresh, fun old hold => by cases hold⟩
    have hundoable : Undoable recorded.nextFrame.dispatchTree s.tree
        (.setViewId viewId : Op L) := by
      refine .inr fun m hm => ?_
      obtain rfl : n = m := Option.some.inj (hstack.symm.trans hm)
      exact hmay
    exact {
      lists := h.lists.trans (step_appended hstep)
      focus := h.focus
      kept := h.kept.step hundoable hset
      calls := h.calls.modify (f := fun node => { node with viewId := some viewId })
        (fun _ => rfl) rfl rfl rfl
      views := by
        show viewId :: s.tree.viewStack = _
        rw [h.views, viewsOf_cons hnode, hview, viewsOf_setViewId hnode
          (nodup_cons.1 h.calls.nodup).1]
        rfl }

/-- A focus handle is set, but not one that has the focus and is new to the frame. -/
theorem Rolls.setFocusHandle {id : Nat} (hundone : Undone recorded s (.setFocusHandle id))
    (hstep : s.step (.setFocusHandle id) = some (.ok s')) : Rolls recorded s' opened := by
  obtain ⟨tree, hset, rfl⟩ := setFocusHandle_cases hstep
  obtain ⟨hundoable, hfocus⟩ := hundone
  have hkept := h.kept.step hundoable hset
  obtain ⟨n, node, hstack, hnode, rfl⟩ := Dispatch.DispatchTree.setFocusId_cases hset
  exact {
    lists := h.lists.trans (step_appended hstep)
    focus := by
      show (if s.window.focus = some id then some id else s.frame.focus) = _
      split
      · next hfocused => exact (hfocus hfocused).symm
      · exact h.focus
    kept := hkept
    calls := h.calls.modify (f := fun node => { node with focusId := some id })
      (fun _ => rfl) rfl rfl rfl
    views := by
      show s.tree.viewStack = viewsOf (s.tree.nodes.modify n _) opened ++ _
      rw [viewsOf_modify (f := fun node => { node with focusId := some id }) fun _ => rfl]
      exact h.views }

theorem Rolls.pushNode (hstep : s.step .pushNode = some (.ok s')) :
    Rolls recorded s' (s.tree.nodes.length :: opened) := by
  have hlists := h.lists.trans (step_appended hstep)
  cases hstep
  have hundoable : Undoable recorded.nextFrame.dispatchTree s.tree (.pushNode : Op L) := trivial
  refine ⟨hlists, h.focus, h.kept.step hundoable rfl, h.calls.pushNode h.kept.len_le, ?_⟩
  -- a new node has no view
  show s.tree.viewStack = viewsOf (s.tree.nodes ++ [_]) _ ++ _
  rw [viewsOf_cons (getElem?_concat_length ..),
    viewsOf_append fun m hm => (h.calls.new m hm).2]
  exact h.views

theorem Rolls.popNode (hstep : s.step .popNode = some (.ok s')) :
    ∃ rest, Rolls recorded s' rest := by
  have hlists := h.lists.trans (step_appended hstep)
  obtain ⟨tree, calls, hcalls, hpop, rfl⟩ := popNode_cases hstep
  have hopened := h.calls
  rw [hcalls] at hopened
  obtain ⟨n, rest, node, tree', rfl, hnode, hpop', hrest, hviews, hnodes, -, -⟩ := hopened.popNode
  obtain rfl : tree = tree' := Except.ok.inj (hpop.symm.trans hpop')
  have hundoable : Undoable recorded.nextFrame.dispatchTree s.tree (.popNode : Op L) := trivial
  refine ⟨rest, hlists, h.focus, h.kept.step hundoable hpop, hrest, ?_⟩
  show tree.viewStack = viewsOf tree.nodes rest ++ _
  rw [hviews, hnodes, h.views, viewsOf_cons hnode]
  -- the view of the node goes with it
  cases node.viewId with
  | none => rfl
  | some viewId => rfl

/-- **An undone step** keeps what the rollback needs. -/
theorem Rolls.step (hundone : Undone recorded s op) (hstep : s.step op = some (.ok s')) :
    ∃ opened', Rolls recorded s' opened' := by
  cases op with
  | insertHitbox _ _ _ | setTooltip _ | layoutLine _ _ _ _ =>
    refine ⟨opened, h.leave hstep ?_ ?_ ?_⟩ <;> cases hstep <;> rfl
  | deferDraw currentView priority element =>
    have hleft := hstep
    obtain ⟨window, hwindow, rfl⟩ := map_eq_ok.1 (Option.some.inj hstep)
    unfold PrepaintWindow.deferDraw at hwindow
    split at hwindow
    · cases hwindow
    · cases hwindow
      exact ⟨opened, h.leave hleft rfl rfl rfl⟩
  | pushNode => exact ⟨_, h.pushNode hstep⟩
  | popNode => exact h.popNode hstep
  | setFocusHandle id => exact ⟨opened, h.setFocusHandle hundone hstep⟩
  | setViewId viewId => exact ⟨opened, h.setViewId hundone hstep⟩
  | takeElementState key =>
    obtain ⟨elementStates, hframe⟩ := takeElementState_frame s.window key
    refine ⟨opened, h.leave hstep ?_ ?_ ?_⟩ <;> cases hstep
    · show (s.window.takeElementState key).nextFrame.focus = _
      rw [hframe]
    · show (s.window.takeElementState key).nextFrame.dispatchTree = _
      rw [hframe]
    · rfl
  | putElementState state =>
    have hleft := hstep
    obtain ⟨key, calls, hcalls, rfl⟩ := putElementState_cases hstep
    exact ⟨opened, h.leave hleft rfl rfl (by rw [hcalls]; rfl)⟩
  | layoutWrappedLine text fontSize runs wrapWidth maxLines =>
    have hleft := hstep
    obtain ⟨window, hwindow, rfl⟩ := map_eq_ok.1 (Option.some.inj hstep)
    obtain ⟨laidOut, -, rfl⟩ := map_eq_ok.1 hwindow
    exact ⟨opened, h.leave hleft rfl rfl rfl⟩

end

end Rolls

/-! ## What spoils a run -/

/-- What no step to come puts right: the nodes or ids are not restored, the focus is another,
    or there are more views than nodes that take them off. -/
def Spoiled (recorded : PrepaintWindow X L T E K S) (s : Transaction X L T E K S)
    (opened : List Nat) : Prop :=
  ¬ Restores recorded.nextFrame.dispatchTree s.tree ∨ s.frame.focus ≠ recorded.nextFrame.focus ∨
    (viewsOf s.tree.nodes opened).length + recorded.nextFrame.dispatchTree.viewStack.length <
      s.tree.viewStack.length

section Spoils

variable [DecidableEq K] {recorded : PrepaintWindow X L T E K S} {s s' : Transaction X L T E K S}
  {op : PrepaintOp X T E K S} {opened : List Nat}

/-- A focus handle that is not undone. -/
theorem Rolls.spoils_setFocusHandle (h : Rolls recorded s opened) {id : Nat}
    (hnot : ¬ Undone recorded s (.setFocusHandle id))
    (hstep : s.step (.setFocusHandle id) = some (.ok s')) :
    Spoiled recorded s' opened ∧
      Opened recorded.nextFrame.dispatchTree s'.tree s'.calls opened := by
  obtain ⟨tree, hset, rfl⟩ := setFocusHandle_cases hstep
  refine ⟨?_, ?_⟩
  · by_cases hundoable : Undoable recorded.nextFrame.dispatchTree s.tree (.setFocusId id : Op L)
    · -- the handle has the focus, and the frame did not know
      obtain ⟨hfocused, hother⟩ := Classical.not_imp.1 fun hfocus => hnot ⟨hundoable, hfocus⟩
      refine .inr (.inl ?_)
      show (if s.window.focus = some id then some id else s.frame.focus) ≠ _
      rw [if_pos hfocused]
      exact Ne.symm hother
    · exact .inl (h.kept.spoils hundoable hset)
  · obtain ⟨n, node, -, -, rfl⟩ := Dispatch.DispatchTree.setFocusId_cases hset
    exact h.calls.modify (f := fun node => { node with focusId := some id })
      (fun _ => rfl) rfl rfl rfl

/-- A view that is not undone. -/
theorem Rolls.spoils_setViewId (h : Rolls recorded s opened) {viewId : Nat}
    (hnot : ¬ Undone recorded s (.setViewId viewId))
    (hstep : s.step (.setViewId viewId) = some (.ok s')) :
    Spoiled recorded s' opened ∧
      Opened recorded.nextFrame.dispatchTree s'.tree s'.calls opened := by
  obtain ⟨tree, hset, rfl⟩ := setViewId_cases hstep
  rcases Dispatch.DispatchTree.setViewId_cases hset with
    ⟨htop, -⟩ | ⟨htop, n, node, hstack, hnode, rfl⟩
  · exact absurd (.inl htop) hnot
  refine ⟨?_, h.calls.modify (f := fun node => { node with viewId := some viewId })
    (fun _ => rfl) rfl rfl rfl⟩
  by_cases hcalls : .element ∈ s.calls
  · obtain ⟨rest, rfl⟩ := h.calls.active hcalls hstack
    cases hview : node.viewId with
    | none =>
      -- the view was registered before
      have hspoils : ¬ Undoable recorded.nextFrame.dispatchTree s.tree
          (.setViewId viewId : Op L) := by
        refine fun hundoable => hnot (.inr ⟨hcalls, fun m node' hm hnode' => ?_⟩)
        obtain rfl : n = m := Option.some.inj (hstack.symm.trans hm)
        obtain rfl : node = node' := Option.some.inj (hnode.symm.trans hnode')
        have hmay := hundoable.resolve_left htop n hstack node hnode
        rw [if_pos (h.calls.new n mem_cons_self).1] at hmay
        exact ⟨hview, hmay.1⟩
      exact .inl (h.kept.spoils hspoils hset)
    | some old =>
      -- the node enters a second view, and leaves only one of them
      refine .inr (.inr ?_)
      show (viewsOf (s.tree.nodes.modify n _) (n :: rest)).length + _ <
        (viewId :: s.tree.viewStack).length
      rw [viewsOf_setViewId hnode (nodup_cons.1 h.calls.nodup).1, h.views,
        viewsOf_cons hnode, hview]
      simp only [length_cons, length_append, Option.toList_some, length_nil]
      omega
  · -- no node that is popped takes the view off
    obtain rfl : opened = [] := by
      have hnone : openElements s.calls = 0 :=
        Nat.eq_zero_of_not_pos (mt openElements_pos_iff.1 hcalls)
      exact length_eq_zero_iff.1 (h.calls.length.trans hnone)
    refine .inr (.inr ?_)
    show _ < (viewId :: s.tree.viewStack).length
    rw [h.views]
    simp [viewsOf]

/-- **Every other step** leaves a trace. -/
theorem Rolls.spoils (h : Rolls recorded s opened) (hnot : ¬ Undone recorded s op)
    (hstep : s.step op = some (.ok s')) :
    Spoiled recorded s' opened ∧
      Opened recorded.nextFrame.dispatchTree s'.tree s'.calls opened := by
  cases op with
  | setFocusHandle id => exact h.spoils_setFocusHandle hnot hstep
  | setViewId viewId => exact h.spoils_setViewId hnot hstep
  | _ => exact absurd trivial hnot

end Spoils

/-! ## A run that goes on until its calls have returned -/

section Closing

variable {recorded window : PrepaintWindow X L T E K S} {s s' : Transaction X L T E K S}
  {tree₀ : Dispatch.DispatchTree L} {opened : List Nat}

/-- The calls have returned, and the frame still has the nodes, the ids and the focus. -/
structure Returned (s s' : Transaction X L T E K S) : Prop where
  calls : s'.calls = []
  nodes : s'.tree.nodes = s.tree.nodes
  focusableNodeIds : s'.tree.focusableNodeIds = s.tree.focusableNodeIds
  viewNodeIds : s'.tree.viewNodeIds = s.tree.viewNodeIds
  focus : s'.frame.focus = s.frame.focus

theorem LeavesNoTrace.restored (h : s.LeavesNoTrace recorded) (hcalls : s.calls = []) :
    Restores recorded.nextFrame.dispatchTree s.tree ∧
      s.tree.viewStack = recorded.nextFrame.dispatchTree.viewStack ∧
      s.frame.focus = recorded.nextFrame.focus := by
  obtain ⟨window, hrollBack, hsame⟩ := h hcalls
  obtain ⟨tree, htruncate, hwindow⟩ := Exec.bind_eq_ok.1 hrollBack
  cases hwindow
  have htree : tree = recorded.nextFrame.dispatchTree := hsame.dispatchTree
  refine ⟨⟨tree, htruncate, ?_, ?_, ?_⟩, ?_, hsame.focus⟩
  · rw [htree]
  · rw [htree]
  · rw [htree]
  · -- truncation leaves the stacks alone
    rw [← htree]
    unfold Dispatch.DispatchTree.truncate at htruncate
    split at htruncate
    · cases htruncate
      rfl
    · cases htruncate

theorem Returned.restores (h : Returned s s') (hrestores : Restores tree₀ s'.tree) :
    Restores tree₀ s.tree := by
  obtain ⟨tree, htruncate, hnodes, hfocus, hids⟩ := hrestores
  have hlen : tree₀.len ≤ s'.tree.nodes.length := by
    unfold Dispatch.DispatchTree.truncate at htruncate
    split at htruncate
    · next hle => exact hle
    · cases htruncate
  rw [truncate_eq hlen] at htruncate
  cases htruncate
  rw [h.nodes] at hlen
  refine ⟨_, truncate_eq hlen, ?_, ?_, ?_⟩
  · rw [← hnodes, h.nodes]
  · rw [← hfocus, h.nodes, h.focusableNodeIds]
  · rw [← hids, h.nodes, h.viewNodeIds]

variable [Inhabited S]

/-- What returns from a call. -/
def closing (calls : List (PrepaintCall K)) : List (PrepaintOp X T E K S) :=
  calls.map fun
    | .element        => .popNode
    | .elementState _ => .putElementState default

variable [DecidableEq K]

/-- Nothing is done any more that truncation does not undo. -/
theorem meets_closing (recorded window : PrepaintWindow X L T E K S)
    (s : Transaction X L T E K S) (calls : List (PrepaintCall K)) :
    (machine window).Meets (Undone recorded) s (closing calls) := by
  refine Machine.Meets.of_forall (fun s op hop => ?_) s
  obtain ⟨call, -, rfl⟩ := mem_map.1 hop
  cases call with
  | element => trivial
  | elementState key => trivial

/-- **All open calls can return**, and each node takes its own view off the stack. -/
theorem run_closing (window : PrepaintWindow X L T E K S) (h : Opened tree₀ s.tree s.calls opened) :
    ∃ s', (machine window).run s (closing s.calls) = some (.ok s') ∧ Returned s s' ∧
      s'.tree.viewStack = s.tree.viewStack.drop (viewsOf s.tree.nodes opened).length := by
  -- induction on the calls; the nodes stay the same, so the views can be read from them
  obtain ⟨w, calls⟩ := s
  induction calls generalizing w opened with
  | nil =>
    obtain rfl : opened = [] := length_eq_zero_iff.1 h.length
    exact ⟨_, rfl, ⟨rfl, rfl, rfl, rfl, rfl⟩, rfl⟩
  | cons call calls ih =>
    cases call with
    | element =>
      obtain ⟨n, rest, node, tree', rfl, hnode, hpop, hrest, hviews, hnodes, hfocus, hids⟩ :=
        h.popNode
      have hstep : (machine window).step ⟨w, .element :: calls⟩ .popNode = some (.ok
          ⟨{ w with nextFrame := { w.nextFrame with dispatchTree := tree' } }, calls⟩) := by
        show some ((w.writeTree .popNode).map _) = _
        unfold PrepaintWindow.writeTree
        rw [show w.nextFrame.dispatchTree.apply .popNode = .ok tree' from hpop]
        rfl
      obtain ⟨s', hrun, hreturned, hstack⟩ :=
        ih { w with nextFrame := { w.nextFrame with dispatchTree := tree' } } hrest
      refine ⟨s', (Machine.run_cons_ok _ hstep).trans hrun, ?_, ?_⟩
      · exact ⟨hreturned.calls, hreturned.nodes.trans hnodes,
          hreturned.focusableNodeIds.trans hfocus, hreturned.viewNodeIds.trans hids,
          hreturned.focus⟩
      · rw [hstack]
        rw [hnodes, hviews, viewsOf_cons hnode, length_append]
        cases node.viewId with
        | none =>
          rw [Option.toList_none, length_nil, Nat.zero_add]
          rfl
        | some viewId =>
          rw [Option.toList_some, length_singleton, ← drop_drop, drop_one]
          rfl
    | elementState key =>
      have hopened : Opened tree₀ (w.putElementState key default).nextFrame.dispatchTree calls
          opened := { h with length := h.length }
      obtain ⟨s', hrun, hreturned, hstack⟩ := ih (w.putElementState key default) hopened
      exact ⟨s', hrun, ⟨hreturned.calls, hreturned.nodes, hreturned.focusableNodeIds,
        hreturned.viewNodeIds, hreturned.focus⟩, hstack⟩

/-- **A spoiled transaction** leaves a trace when its calls have returned. -/
theorem Spoiled.trace (hspoiled : Spoiled recorded s opened)
    (h : Opened tree₀ s.tree s.calls opened) :
    ∃ actions s', (machine window).Meets (Undone recorded) s actions ∧
      (machine window).run s actions = some (.ok s') ∧ ¬ s'.LeavesNoTrace recorded := by
  obtain ⟨s', hrun, hreturned, hstack⟩ := run_closing window h
  refine ⟨closing s.calls, s', meets_closing recorded window s s.calls, hrun, fun hleaves => ?_⟩
  obtain ⟨hrestores, hviews, hfocus⟩ := hleaves.restored hreturned.calls
  rcases hspoiled with hnot | hne | hmore
  · exact hnot (hreturned.restores hrestores)
  · exact hne (hreturned.focus.symm.trans hfocus)
  · have hlength := congrArg List.length (hstack.symm.trans hviews)
    rw [length_drop] at hlength
    omega

/-- **A failed transaction** leaves no trace in the runs whose steps are all undone, and after
    any other step it leaves one. -/
theorem transact_leaves_no_trace (recorded : PrepaintWindow X L T E K S) :
    (machine recorded).Exact (Undone recorded) (LeavesNoTrace recorded) := by
  have hinductive : (machine recorded).Inductive (Undone recorded)
      fun s => ∃ opened, Rolls recorded s opened := by
    refine ⟨⟨[], rolls_start recorded⟩, fun s op s' ⟨opened, h⟩ hundone hstep => ?_⟩
    exact h.step hundone hstep
  refine hinductive.exact (fun s ⟨opened, h⟩ => h.leavesNoTrace) ?_
  intro s op s' ⟨opened, h⟩ hstep hnot
  obtain ⟨hspoiled, hopened⟩ := h.spoils hnot hstep
  exact hspoiled.trace hopened

end Closing

/-! ### A focused element -/

/-- Fonts without glyphs. -/
def blankTextSystem : PlatformTextSystem ℚ where
  layoutLine := fun text fontSize _ => ⟨fontSize, 0, 0, 0, [], text.length⟩
  index_valid := by
    intro text fontSize runs glyph hglyph
    simp [LineLayout.glyphs] at hglyph

/-- A window with the focus on the handle 7 that prepaints its root. -/
def focusedWindow : PrepaintWindow ℚ Unit Unit Unit Unit Unit where
  nextFrame := ⟨[], [], [], Dispatch.DispatchTree.new.pushNode, [], fun _ => none, none⟩
  renderedStates := fun _ => none
  focus := some 7
  nextHitboxId := 0
  nextTooltipId := 0
  textSystem := .new blankTextSystem

/-- An element with the focused handle is prepainted and discarded.  The frame goes on
    recording the handle. -/
theorem transact_keeps_focus :
    ¬ ∀ (window : PrepaintWindow ℚ Unit Unit Unit Unit Unit)
      (ops : List (PrepaintOp ℚ Unit Unit Unit Unit)) (s : Transaction ℚ Unit Unit Unit Unit Unit),
      (machine window).run (machine window).start ops = some (.ok s) →
        s.LeavesNoTrace window := by
  intro h
  obtain ⟨window, hrollBack, hsame⟩ :=
    h focusedWindow [.pushNode, .setFocusHandle 7, .popNode] _ rfl rfl
  have hwindow : window.nextFrame.focus = some 7 := by
    cases hrollBack
    rfl
  exact absurd (hwindow.symm.trans hsame.focus) (Option.some_ne_none 7)

end Transaction

end Gpui
