import Gpui.Keymap.DispatchTree

/-! # Key dispatch: rolling a tree back

    `truncate` cuts off the nodes that were pushed since a length was recorded, and
    takes their ids out of the maps.  What a map held for such an id before is not put
    back, and an id that was overwritten on its node is not found any more. -/

namespace Gpui.Dispatch

open List

variable {L : Type}

/-! ## Ids -/

/-- A node behind the recorded length carries the id. -/
def Carries (len : Nat) (idOf : DispatchNode L → Option Nat) (nodes : List (DispatchNode L))
    (id : Nat) : Prop :=
  ∃ n node, len ≤ n ∧ nodes[n]? = some node ∧ idOf node = some id

/-- The node `n` may register the id.  A new node takes no id that was registered when the
    length was recorded, and gives up none that no other new node carries; on an old node
    nothing changes. -/
def MayRegister (len : Nat) (idOf : DispatchNode L → Option Nat) (recorded : Nat → Option Nat)
    (nodes : List (DispatchNode L)) (n id : Nat) : Prop :=
  ∀ node, nodes[n]? = some node →
    if len ≤ n then
      recorded id = none ∧ ∀ old, idOf node = some old → old ≠ id →
        ∃ m other, len ≤ m ∧ m ≠ n ∧ nodes[m]? = some other ∧ idOf other = some old
    else idOf node = some id ∧ (recorded id = some n ∨ Carries len idOf nodes id)

/-- The map is the recorded one but for the ids that new nodes carry, and those were not
    registered. -/
structure IdsKept (len : Nat) (idOf : DispatchNode L → Option Nat) (recorded : Nat → Option Nat)
    (nodes : List (DispatchNode L)) (ids : Nat → Option Nat) : Prop where
  fresh : ∀ id, Carries len idOf nodes id → recorded id = none
  registered : ∀ id, Carries len idOf nodes id → ids id ≠ none
  kept : ∀ id, ¬ Carries len idOf nodes id → ids id = recorded id

section Ids

variable {len n id : Nat} {idOf : DispatchNode L → Option Nat} {recorded ids : Nat → Option Nat}
  {nodes nodes' : List (DispatchNode L)} {node : DispatchNode L}
  {f : DispatchNode L → DispatchNode L}

theorem DispatchTree.removeIds_apply (carried : List (Option Nat)) (ids : Nat → Option Nat)
    (id : Nat) :
    removeIds carried ids id = if some id ∈ carried then none else ids id := by
  unfold removeIds
  induction carried generalizing ids with
  | nil => simp
  | cons other carried ih =>
    rw [foldl_cons, ih]
    cases other with
    | none => simp
    | some other =>
      by_cases heq : id = other
      · subst heq
        simp
      · simp [heq]

theorem mem_drop_map_iff :
    some id ∈ (nodes.drop len).map idOf ↔ Carries len idOf nodes id := by
  rw [mem_map]
  constructor
  · rintro ⟨node, hmem, hid⟩
    obtain ⟨i, hi⟩ := getElem?_of_mem hmem
    rw [getElem?_drop] at hi
    exact ⟨len + i, node, Nat.le_add_right _ _, hi, hid⟩
  · rintro ⟨n, node, hle, hnode, hid⟩
    refine ⟨node, mem_of_getElem? (i := n - len) ?_, hid⟩
    rw [getElem?_drop, Nat.add_sub_cancel' hle]
    exact hnode

/-- What truncation makes of a map. -/
theorem removeIds_drop (nodes : List (DispatchNode L)) (ids : Nat → Option Nat) (id : Nat)
    [Decidable (Carries len idOf nodes id)] :
    DispatchTree.removeIds ((nodes.drop len).map idOf) ids id =
      if Carries len idOf nodes id then none else ids id := by
  rw [DispatchTree.removeIds_apply]
  simp only [mem_drop_map_iff]

theorem IdsKept.restored (h : IdsKept len idOf recorded nodes ids) :
    DispatchTree.removeIds ((nodes.drop len).map idOf) ids = recorded := by
  classical
  funext id
  rw [removeIds_drop]
  split
  · next hcarries => exact (h.fresh id hcarries).symm
  · next hnot => exact h.kept id hnot

/-- As long as the new nodes carry the same ids, nothing changes. -/
theorem IdsKept.congr (h : IdsKept len idOf recorded nodes ids)
    (hcarries : ∀ id, Carries len idOf nodes' id ↔ Carries len idOf nodes id) :
    IdsKept len idOf recorded nodes' ids where
  fresh id hid := h.fresh id ((hcarries id).mp hid)
  registered id hid := h.registered id ((hcarries id).mp hid)
  kept id hid := h.kept id (fun hc => hid ((hcarries id).mpr hc))

/-- Writing a node without changing its id. -/
theorem carries_modify_of_eq (hf : ∀ node, idOf (f node) = idOf node) (id : Nat) :
    Carries len idOf (nodes.modify n f) id ↔ Carries len idOf nodes id := by
  unfold Carries
  simp only [getElem?_modify]
  constructor
  · rintro ⟨m, node, hle, hnode, hid⟩
    obtain ⟨node', hnode', rfl⟩ := Option.map_eq_some_iff.mp hnode
    refine ⟨m, node', hle, hnode', ?_⟩
    split at hid
    · rw [← hf]
      exact hid
    · exact hid
  · rintro ⟨m, node, hle, hnode, hid⟩
    refine ⟨m, _, hle, by rw [hnode]; rfl, ?_⟩
    split
    · rw [hf]
      exact hid
    · exact hid

/-- A new node without an id. -/
theorem carries_append (hnode : idOf node = none) (id : Nat) :
    Carries len idOf (nodes ++ [node]) id ↔ Carries len idOf nodes id := by
  constructor
  · rintro ⟨m, other, hle, hother, hid⟩
    rcases Nat.lt_or_ge m nodes.length with hlt | hge
    · rw [getElem?_append_left hlt] at hother
      exact ⟨m, other, hle, hother, hid⟩
    · rw [getElem?_append_right hge, getElem?_singleton] at hother
      split at hother
      · cases hother
        rw [hnode] at hid
        cases hid
      · cases hother
  · rintro ⟨m, other, hle, hother, hid⟩
    exact ⟨m, other, hle, by
      rw [List.getElem?_append_left (List.getElem?_eq_some_iff.mp hother).1]
      exact hother, hid⟩

/-- Writing an id to a node: that id, and those of the other new nodes. -/
theorem carries_modify (hnode : nodes[n]? = some node) (hf : idOf (f node) = some id)
    (other : Nat) :
    Carries len idOf (nodes.modify n f) other ↔ (len ≤ n ∧ other = id) ∨
      ∃ m node', len ≤ m ∧ m ≠ n ∧ nodes[m]? = some node' ∧ idOf node' = some other := by
  constructor
  · rintro ⟨m, node', hle, hnode', hid⟩
    by_cases hm : n = m
    · subst hm
      rw [getElem?_modify_eq, hnode] at hnode'
      cases hnode'
      exact .inl ⟨hle, Option.some.inj (hid.symm.trans hf)⟩
    · rw [getElem?_modify_ne f _ hm] at hnode'
      exact .inr ⟨m, node', hle, Ne.symm hm, hnode', hid⟩
  · rintro (⟨hle, rfl⟩ | ⟨m, node', hle, hm, hnode', hid⟩)
    · exact ⟨n, f node, hle, by rw [getElem?_modify_eq, hnode]; rfl, hf⟩
    · exact ⟨m, node', hle, by rw [getElem?_modify_ne f _ (Ne.symm hm)]; exact hnode', hid⟩

/-- An id leads to a node now, and nothing changed about the others. -/
theorem IdsKept.update (h : IdsKept len idOf recorded nodes ids)
    (hothers : ∀ other, other ≠ id → (Carries len idOf nodes' other ↔ Carries len idOf nodes other))
    (hfresh : Carries len idOf nodes' id → recorded id = none)
    (hkept : ¬ Carries len idOf nodes' id → recorded id = some n) :
    IdsKept len idOf recorded nodes' (Function.update ids id (some n)) := by
  refine ⟨fun other hother => ?_, fun other hother => ?_, fun other hother => ?_⟩
  · by_cases heq : other = id
    · rw [heq] at hother ⊢
      exact hfresh hother
    · exact h.fresh other ((hothers other heq).mp hother)
  · by_cases heq : other = id
    · rw [heq, Function.update_self]
      exact Option.some_ne_none n
    · rw [Function.update_of_ne heq]
      exact h.registered other ((hothers other heq).mp hother)
  · by_cases heq : other = id
    · rw [heq] at hother ⊢
      rw [Function.update_self]
      exact (hkept hother).symm
    · rw [Function.update_of_ne heq]
      exact h.kept other (mt (hothers other heq).mpr hother)

/-- The other new nodes carry all that the node carried before. -/
theorem carries_modify_new (hnode : nodes[n]? = some node) (hf : idOf (f node) = some id)
    (hold : ∀ old, idOf node = some old → old ≠ id →
      ∃ m other, len ≤ m ∧ m ≠ n ∧ nodes[m]? = some other ∧ idOf other = some old)
    {other : Nat} (hne : other ≠ id) :
    Carries len idOf (nodes.modify n f) other ↔ Carries len idOf nodes other := by
  rw [carries_modify hnode hf]
  constructor
  · rintro (⟨-, rfl⟩ | ⟨m, node', hm, -, hnode', hid⟩)
    · exact absurd rfl hne
    · exact ⟨m, node', hm, hnode', hid⟩
  · rintro ⟨m, node', hm, hnode', hid⟩
    by_cases hmn : m = n
    · subst hmn
      obtain rfl : node = node' := Option.some.inj (hnode.symm.trans hnode')
      obtain ⟨m, node', hm, hmn, hnode', hid⟩ := hold other hid hne
      exact .inr ⟨m, node', hm, hmn, hnode', hid⟩
    · exact .inr ⟨m, node', hm, hmn, hnode', hid⟩

/-- An old node is none of those that are cut off. -/
theorem carries_modify_old (hnode : nodes[n]? = some node) (hf : idOf (f node) = some id)
    (hlt : ¬ len ≤ n) (other : Nat) :
    Carries len idOf (nodes.modify n f) other ↔ Carries len idOf nodes other := by
  rw [carries_modify hnode hf]
  constructor
  · rintro (⟨hle, -⟩ | ⟨m, node', hm, -, hnode', hid⟩)
    · exact absurd hle hlt
    · exact ⟨m, node', hm, hnode', hid⟩
  · rintro ⟨m, node', hm, hnode', hid⟩
    exact .inr ⟨m, node', hm, by omega, hnode', hid⟩

/-- **Registering an id** that may be registered. -/
theorem IdsKept.register (h : IdsKept len idOf recorded nodes ids)
    (hmay : MayRegister len idOf recorded nodes n id) (hnode : nodes[n]? = some node)
    (hf : idOf (f node) = some id) :
    IdsKept len idOf recorded (nodes.modify n f) (Function.update ids id (some n)) := by
  have hmay := hmay node hnode
  split at hmay
  · next hle =>
    -- the node is cut off, and the id is taken out with it
    obtain ⟨hfresh, hold⟩ := hmay
    have hcarries : Carries len idOf (nodes.modify n f) id :=
      (carries_modify hnode hf id).mpr (.inl ⟨hle, rfl⟩)
    exact h.update (fun other => carries_modify_new hnode hf hold) (fun _ => hfresh)
      (fun hnot => absurd hcarries hnot)
  · next hlt =>
    -- the node stays, and so does the id unless a new node carries it too
    obtain ⟨-, hrecorded⟩ := hmay
    have hcarries := carries_modify_old hnode hf hlt
    refine h.update (fun other _ => hcarries other) (fun hid => h.fresh id ((hcarries id).mp hid)) ?_
    intro hnot
    exact hrecorded.resolve_right (mt (hcarries id).mpr hnot)

/-- **Registering an id** that may not be registered: the map is not restored, or the
    node itself was changed. -/
theorem IdsKept.spoiled (h : IdsKept len idOf recorded nodes ids)
    (hmay : ¬ MayRegister len idOf recorded nodes n id) (hnode : nodes[n]? = some node)
    (hf : idOf (f node) = some id) :
    DispatchTree.removeIds (((nodes.modify n f).drop len).map idOf)
        (Function.update ids id (some n)) ≠ recorded ∨
      n < len ∧ idOf node ≠ some id := by
  classical
  -- the node is the one at `n`, so the condition is about it
  have hmay : ¬ if len ≤ n then
      recorded id = none ∧ ∀ old, idOf node = some old → old ≠ id →
        ∃ m other, len ≤ m ∧ m ≠ n ∧ nodes[m]? = some other ∧ idOf other = some old
      else idOf node = some id ∧ (recorded id = some n ∨ Carries len idOf nodes id) := by
    intro hall
    refine hmay fun node' hnode' => ?_
    obtain rfl : node = node' := Option.some.inj (hnode.symm.trans hnode')
    exact hall
  split at hmay
  · next hle =>
    left
    intro heq
    by_cases hfresh : recorded id = none
    · -- an id that was overwritten is still in the map
      have hold : ∃ old, idOf node = some old ∧ old ≠ id ∧
          ∀ m other, len ≤ m → m ≠ n → nodes[m]? = some other → idOf other ≠ some old := by
        by_contra hnone
        refine hmay ⟨hfresh, fun old hid hne => ?_⟩
        by_contra hno
        exact hnone ⟨old, hid, hne, fun m other hm hmn hother hcarried =>
          hno ⟨m, other, hm, hmn, hother, hcarried⟩⟩
      obtain ⟨old, hid, hne, hno⟩ := hold
      have hwas : Carries len idOf nodes old := ⟨n, node, hle, hnode, hid⟩
      have hnot : ¬ Carries len idOf (nodes.modify n f) old := by
        rw [carries_modify hnode hf]
        rintro (⟨-, heq⟩ | ⟨m, node', hm, hmn, hnode', hid'⟩)
        · exact hne heq
        · exact hno m node' hm hmn hnode' hid'
      have hmap := congrFun heq old
      rw [removeIds_drop, if_neg hnot, Function.update_of_ne hne, h.fresh old hwas] at hmap
      exact h.registered old hwas hmap
    · -- an id that was registered is taken out
      have hcarries : Carries len idOf (nodes.modify n f) id :=
        (carries_modify hnode hf id).mpr (.inl ⟨hle, rfl⟩)
      have hmap := congrFun heq id
      rw [removeIds_drop, if_pos hcarries] at hmap
      exact hfresh hmap.symm
  · next hlt =>
    by_cases hid : idOf node = some id
    · -- the id leads to an old node now, and nothing takes it back
      left
      intro heq
      have hnot : ¬ Carries len idOf (nodes.modify n f) id := by
        rw [carries_modify hnode hf]
        rintro (⟨hle, -⟩ | ⟨m, node', hm, -, hnode', hid'⟩)
        · exact hlt hle
        · exact hmay ⟨hid, .inr ⟨m, node', hm, hnode', hid'⟩⟩
      have hmap := congrFun heq id
      rw [removeIds_drop, if_neg hnot, Function.update_self] at hmap
      exact hmay ⟨hid, .inl hmap.symm⟩
    · exact .inr ⟨Nat.lt_of_not_le hlt, hid⟩

end Ids

/-! ## The run after a length was recorded -/

/-- Truncating to the recorded length restores the nodes and both maps. -/
def Restores (recorded tree : DispatchTree L) : Prop :=
  ∃ tree', tree.truncate recorded.len = .ok tree' ∧ tree'.nodes = recorded.nodes ∧
    tree'.focusableNodeIds = recorded.focusableNodeIds ∧
    tree'.viewNodeIds = recorded.viewNodeIds

/-- An operation that truncation undoes: an old node is left as it is, and ids are
    registered that may be. -/
def Undoable (recorded tree : DispatchTree L) : Op L → Prop
  | .pushNode => True
  | .popNode  => True
  | .setKeyContext context =>
      ∀ n node, tree.nodeStack.head? = some n → tree.nodes[n]? = some node →
        recorded.len ≤ n ∨ node.context = some context
  | .setFocusId focusId =>
      ∀ n, tree.nodeStack.head? = some n →
        MayRegister recorded.len DispatchNode.focusId recorded.focusableNodeIds tree.nodes n focusId
  | .setViewId viewId =>
      tree.viewStack.head? = some viewId ∨ ∀ n, tree.nodeStack.head? = some n →
        MayRegister recorded.len DispatchNode.viewId recorded.viewNodeIds tree.nodes n viewId
  | .onKeyEvent _ | .onModifiersChanged _ | .onAction _ =>
      ∀ n, tree.nodeStack.head? = some n → recorded.len ≤ n

/-- What every undoable operation keeps. -/
structure Kept (recorded tree : DispatchTree L) : Prop where
  len_le : recorded.len ≤ tree.nodes.length
  nodes : tree.nodes.take recorded.len = recorded.nodes
  focusIds : IdsKept recorded.len DispatchNode.focusId recorded.focusableNodeIds tree.nodes
    tree.focusableNodeIds
  viewIds : IdsKept recorded.len DispatchNode.viewId recorded.viewNodeIds tree.nodes
    tree.viewNodeIds

section Run

variable {recorded tree tree' : DispatchTree L} {f : DispatchNode L → DispatchNode L}
  {op : Op L} {n : Nat}

theorem truncate_eq (h : recorded.len ≤ tree.nodes.length) : tree.truncate recorded.len = .ok
    { tree with
      focusableNodeIds := DispatchTree.removeIds
        ((tree.nodes.drop recorded.len).map DispatchNode.focusId) tree.focusableNodeIds
      viewNodeIds := DispatchTree.removeIds
        ((tree.nodes.drop recorded.len).map DispatchNode.viewId) tree.viewNodeIds
      nodes := tree.nodes.take recorded.len } := by
  rw [DispatchTree.truncate, if_pos h]

theorem Kept.restores (h : Kept recorded tree) : Restores recorded tree :=
  ⟨_, truncate_eq h.len_le, h.nodes, h.focusIds.restored, h.viewIds.restored⟩

theorem carries_recorded (recorded : DispatchTree L) (idOf : DispatchNode L → Option Nat)
    (id : Nat) : ¬ Carries recorded.len idOf recorded.nodes id := by
  rintro ⟨n, node, hle, hnode, -⟩
  exact absurd (List.getElem?_eq_some_iff.mp hnode).1 (Nat.not_lt.mpr hle)

theorem kept_start (recorded : DispatchTree L) : Kept recorded recorded where
  len_le := Nat.le_refl _
  nodes := take_length
  focusIds := ⟨fun id h => absurd h (carries_recorded _ _ id),
    fun id h => absurd h (carries_recorded _ _ id), fun _ _ => rfl⟩
  viewIds := ⟨fun id h => absurd h (carries_recorded _ _ id),
    fun id h => absurd h (carries_recorded _ _ id), fun _ _ => rfl⟩

section

variable (h : Kept recorded tree)
include h

/-- The old nodes after a write to a new one, or one that changes nothing. -/
theorem Kept.take_modify
    (hf : ∀ node, tree.nodes[n]? = some node → recorded.len ≤ n ∨ f node = node) :
    (tree.nodes.modify n f).take recorded.len = recorded.nodes := by
  rw [← h.nodes]
  apply ext_getElem?
  intro m
  by_cases hm : m < recorded.len
  · rw [getElem?_take_of_lt hm, getElem?_take_of_lt hm, getElem?_modify]
    cases hnode : tree.nodes[m]? with
    | none => rfl
    | some node =>
      by_cases hmn : n = m
      · subst hmn
        have hsame := (hf node hnode).resolve_left (by omega)
        simp [hsame]
      · simp [hmn]
  · rw [getElem?_take_eq_none (by omega), getElem?_take_eq_none (by omega)]

/-- Nothing restores an old node that was changed. -/
theorem Kept.not_restores {node : DispatchNode L} (hlt : n < recorded.len)
    (hnode : tree.nodes[n]? = some node) (hf : f node ≠ node)
    (htree' : tree'.nodes = tree.nodes.modify n f) : ¬ Restores recorded tree' := by
  rintro ⟨tree'', htruncate, hnodes, -⟩
  have hlen : recorded.len ≤ tree'.nodes.length := by
    rw [htree', length_modify]
    exact h.len_le
  rw [truncate_eq hlen] at htruncate
  cases htruncate
  have heq : (tree'.nodes.take recorded.len)[n]? = (tree.nodes.take recorded.len)[n]? := by
    rw [h.nodes]
    exact congrArg (·[n]?) hnodes
  rw [getElem?_take_of_lt hlt, getElem?_take_of_lt hlt, htree', getElem?_modify_eq,
    hnode] at heq
  exact hf (Option.some.inj heq)

/-- A write that leaves the ids alone. -/
theorem Kept.write (hold : ∀ node, tree.nodes[n]? = some node → recorded.len ≤ n ∨ f node = node)
    (hfocusId : ∀ node, (f node).focusId = node.focusId)
    (hviewId : ∀ node, (f node).viewId = node.viewId) (hnodes : tree'.nodes = tree.nodes.modify n f)
    (hfocus : tree'.focusableNodeIds = tree.focusableNodeIds)
    (hview : tree'.viewNodeIds = tree.viewNodeIds) : Kept recorded tree' where
  len_le := by
    rw [hnodes, length_modify]
    exact h.len_le
  nodes := by
    rw [hnodes]
    exact h.take_modify hold
  focusIds := by
    rw [hnodes, hfocus]
    exact h.focusIds.congr (carries_modify_of_eq hfocusId)
  viewIds := by
    rw [hnodes, hview]
    exact h.viewIds.congr (carries_modify_of_eq hviewId)

/-- What an undoable listener operation keeps, and what another one spoils. -/
theorem Kept.listener {listener : L}
    (hop : op = .onKeyEvent listener ∨ op = .onModifiersChanged listener ∨ op = .onAction listener)
    (happly : tree.apply op = .ok tree') :
    ((∀ n, tree.nodeStack.head? = some n → recorded.len ≤ n) → Kept recorded tree') ∧
      (¬ (∀ n, tree.nodeStack.head? = some n → recorded.len ≤ n) → ¬ Restores recorded tree') := by
  obtain ⟨n, node, f, hstack, hnode, hf, rfl⟩ := DispatchTree.listener_cases hop happly
  constructor
  · intro hnew
    exact h.write (fun _ _ => .inl (hnew n hstack)) (fun node => (hf node).2.1)
      (fun node => (hf node).2.2.1) rfl rfl rfl
  · intro hnot
    have hlt : n < recorded.len := by
      by_contra hge
      refine hnot fun m hm => ?_
      obtain rfl : n = m := Option.some.inj (hstack.symm.trans hm)
      omega
    exact h.not_restores hlt hnode (hf node).2.2.2 rfl

/-- **An undoable step** keeps what truncation needs. -/
theorem Kept.step (hop : Undoable recorded tree op) (happly : tree.apply op = .ok tree') :
    Kept recorded tree' := by
  cases op with
  | pushNode =>
    cases happly
    refine ⟨?_, ?_, h.focusIds.congr (carries_append rfl), h.viewIds.congr (carries_append rfl)⟩
    · exact Nat.le_trans h.len_le (by simp [DispatchTree.pushNode])
    · show (tree.nodes ++ [_]).take recorded.len = recorded.nodes
      rw [take_append_of_le_length h.len_le, h.nodes]
  | popNode =>
    obtain ⟨n, stack, node, -, -, rfl⟩ := DispatchTree.popNode_cases happly
    exact ⟨h.len_le, h.nodes, h.focusIds, h.viewIds⟩
  | setKeyContext context =>
    obtain ⟨n, node, hstack, hnode, rfl⟩ := DispatchTree.setKeyContext_cases happly
    refine h.write (n := n) (f := fun node => { node with context := some context })
      (fun node hnode => (hop n node hstack hnode).imp_right fun heq => ?_)
      (fun _ => rfl) (fun _ => rfl) rfl rfl rfl
    rw [← heq]
  | setFocusId focusId =>
    obtain ⟨n, node, hstack, hnode, rfl⟩ := DispatchTree.setFocusId_cases happly
    have hmay := hop n hstack
    refine ⟨?_, h.take_modify fun node' hnode' => ?_, h.focusIds.register hmay hnode rfl,
      h.viewIds.congr (carries_modify_of_eq fun _ => rfl)⟩
    · rw [length_modify]
      exact h.len_le
    · have hmay := hmay node' hnode'
      split at hmay
      · next hle => exact .inl hle
      · refine .inr ?_
        rw [← hmay.1]
  | setViewId viewId =>
    rcases DispatchTree.setViewId_cases happly with ⟨-, rfl⟩ | ⟨htop, n, node, hstack, hnode, rfl⟩
    · exact h
    · have hmay := hop.resolve_left htop n hstack
      refine ⟨?_, h.take_modify fun node' hnode' => ?_,
        h.focusIds.congr (carries_modify_of_eq fun _ => rfl), h.viewIds.register hmay hnode rfl⟩
      · rw [length_modify]
        exact h.len_le
      · have hmay := hmay node' hnode'
        split at hmay
        · next hle => exact .inl hle
        · refine .inr ?_
          rw [← hmay.1]
  | onKeyEvent listener => exact (h.listener (.inl rfl) happly).1 hop
  | onModifiersChanged listener => exact (h.listener (.inr (.inl rfl)) happly).1 hop
  | onAction listener => exact (h.listener (.inr (.inr rfl)) happly).1 hop

/-- **Any other step** is not undone by truncation. -/
theorem Kept.spoils (hop : ¬ Undoable recorded tree op) (happly : tree.apply op = .ok tree') :
    ¬ Restores recorded tree' := by
  cases op with
  | pushNode => exact absurd trivial hop
  | popNode => exact absurd trivial hop
  | setKeyContext context =>
    obtain ⟨n, node, hstack, hnode, rfl⟩ := DispatchTree.setKeyContext_cases happly
    have hnot : ¬ recorded.len ≤ n ∧ node.context ≠ some context := by
      by_contra hno
      refine hop fun m node' hm hnode' => ?_
      obtain rfl : n = m := Option.some.inj (hstack.symm.trans hm)
      obtain rfl : node = node' := Option.some.inj (hnode.symm.trans hnode')
      tauto
    exact h.not_restores (Nat.lt_of_not_le hnot.1) hnode
      (fun heq => hnot.2 (congrArg DispatchNode.context heq).symm) rfl
  | setFocusId focusId =>
    obtain ⟨n, node, hstack, hnode, rfl⟩ := DispatchTree.setFocusId_cases happly
    have hmay : ¬ MayRegister recorded.len DispatchNode.focusId recorded.focusableNodeIds
        tree.nodes n focusId := by
      intro hmay
      refine hop fun m hm => ?_
      obtain rfl : n = m := Option.some.inj (hstack.symm.trans hm)
      exact hmay
    rcases h.focusIds.spoiled hmay hnode
        (f := fun node => { node with focusId := some focusId }) rfl with hmap | ⟨hlt, hid⟩
    · rintro ⟨tree'', htruncate, -, hfocus, -⟩
      rw [truncate_eq (by rw [length_modify]; exact h.len_le)] at htruncate
      cases htruncate
      exact hmap hfocus
    · exact h.not_restores hlt hnode
        (fun heq => hid (congrArg DispatchNode.focusId heq).symm) rfl
  | setViewId viewId =>
    rcases DispatchTree.setViewId_cases happly with ⟨htop, -⟩ | ⟨-, n, node, hstack, hnode, rfl⟩
    · exact absurd (.inl htop) hop
    · have hmay : ¬ MayRegister recorded.len DispatchNode.viewId recorded.viewNodeIds
          tree.nodes n viewId := by
        intro hmay
        refine hop (.inr fun m hm => ?_)
        obtain rfl : n = m := Option.some.inj (hstack.symm.trans hm)
        exact hmay
      rcases h.viewIds.spoiled hmay hnode
          (f := fun node => { node with viewId := some viewId }) rfl with hmap | ⟨hlt, hid⟩
      · rintro ⟨tree'', htruncate, -, -, hview⟩
        rw [truncate_eq (by rw [length_modify]; exact h.len_le)] at htruncate
        cases htruncate
        exact hmap hview
      · exact h.not_restores hlt hnode
          (fun heq => hid (congrArg DispatchNode.viewId heq).symm) rfl
  | onKeyEvent listener => exact (h.listener (.inl rfl) happly).2 hop
  | onModifiersChanged listener => exact (h.listener (.inr (.inl rfl)) happly).2 hop
  | onAction listener => exact (h.listener (.inr (.inr rfl)) happly).2 hop

end

end Run

/-- **Rolling back**: in every run whose operations are undoable truncation restores the
    recorded tree, and right after any other operation it does not. -/
theorem truncate_restores (recorded : DispatchTree L) :
    (machine recorded).Exact (Undoable recorded) (Restores recorded) := by
  have hinductive : (machine recorded).Inductive (Undoable recorded) (Kept recorded) :=
    ⟨kept_start recorded, fun tree op tree' h hop happly => h.step hop (Option.some.inj happly)⟩
  exact hinductive.exact (fun tree h => h.restores) fun tree op tree' h happly hop =>
    ⟨[], tree', trivial, rfl, h.spoils hop (Option.some.inj happly)⟩

/-- A node that takes the focus id of an older one: after the rollback no node is found for
    the id any more. -/
theorem truncate_forgets :
    ∃ recorded tree tree' : DispatchTree Unit,
      (machine DispatchTree.new).run DispatchTree.new [.pushNode, .setFocusId 7] =
        some (.ok recorded) ∧
      (machine recorded).run recorded [.pushNode, .setFocusId 7, .popNode] = some (.ok tree) ∧
      tree.truncate recorded.len = .ok tree' ∧
      recorded.focusableNodeIds 7 = some 0 ∧ tree'.focusableNodeIds 7 = none ∧
      ¬ Restores recorded tree := by
  refine ⟨_, _, _, rfl, rfl, rfl, rfl, rfl, ?_⟩
  rintro ⟨tree', htruncate, -, hfocus, -⟩
  cases htruncate
  have := congrFun hfocus 7
  cases this

end Gpui.Dispatch
