import Gpui.Lib.Exec
import Gpui.Window.A11y

/-! # The accessibility tree: what it shows

    The update for a frame has a node for every element of the frame with an id and a role,
    as long as these elements are prepainted in this frame and not twice.  What is reused
    pushes no nodes, and what is taken back has pushed them. -/

open Exec

namespace Gpui

open List

variable {I B V N K : Type}

/-! ### Section 1: The property -/

/-- An element with an id and a role, and the id of the nearest such element around it. -/
structure A11yElement (I B : Type) where
  id : I
  info : B
  parent : I

namespace A11yFrame

/-- The elements that should have nodes. -/
def a11yElements (root : I) (elements : List (ShownElement I B)) : List (A11yElement I B) :=
  elements.filterMap (fun element =>
    element.node.map (fun node => ⟨node.1, node.2, element.ancestors.headD root⟩))

theorem a11yElements_append (root : I) (elements more : List (ShownElement I B)) :
    a11yElements root (elements ++ more) = a11yElements root elements ++ a11yElements root more :=
  filterMap_append

theorem a11yElements_eq_nil {root : I} {elements : List (ShownElement I B)}
    (h : ∀ element ∈ elements, element.node = none) : a11yElements root elements = [] := by
  unfold a11yElements
  rw [filterMap_eq_nil_iff]
  intro element hmem
  rw [h element hmem]
  rfl

end A11yFrame

/-- The nodes of an update are the root, one node for every element, and synthetic
    children; an element's node has what the element tells, and is a child of the node of
    the nearest element around it and of no other node. -/
structure A11yShows (root : I) (synthetic : List I) (elements : List (A11yElement I B))
    (nodes : List (I × A11yNode I B)) : Prop where
  ids : (nodes.map Prod.fst).Nodup
  distinct : (elements.map A11yElement.id).Nodup
  root_mem : root ∈ nodes.map Prod.fst
  only : ∀ id node, (id, node) ∈ nodes → id = root ∨ id ∈ synthetic ∨
    ∃ element ∈ elements, element.id = id ∧ element.info = node.info
  shown : ∀ element ∈ elements, ∃ node, (element.id, node) ∈ nodes ∧ node.info = element.info
  child : ∀ element ∈ elements, ∃ node, (element.parent, node) ∈ nodes ∧
    element.id ∈ node.children
  parent : ∀ element ∈ elements, ∀ id node, (id, node) ∈ nodes →
    element.id ∈ node.children → id = element.parent

/-! ### Section 2: Nodes that are added -/

/-- The nodes show the elements, and have no other children than nodes. -/
structure A11yTells (root : I) (synthetic : List I) (elements : List (A11yElement I B))
    (nodes : List (I × A11yNode I B)) : Prop extends A11yShows root synthetic elements nodes where
  closed : ∀ id node, (id, node) ∈ nodes → ∀ child ∈ node.children, child ∈ nodes.map Prod.fst

namespace A11yTells

variable {root : I} {synthetic : List I} {elements : List (A11yElement I B)}
variable {nodes nodes' : List (I × A11yNode I B)}

/-- The order of the nodes does not matter. -/
theorem perm (h : A11yTells root synthetic elements nodes) (hperm : nodes.Perm nodes') :
    A11yTells root synthetic elements nodes' := by
  have hids := hperm.map Prod.fst
  constructor
  · constructor
    · exact hids.nodup_iff.mp h.ids
    · exact h.distinct
    · exact hids.mem_iff.mp h.root_mem
    · intro id node hmem
      exact h.only id node (hperm.mem_iff.mpr hmem)
    · intro element helement
      obtain ⟨node, hmem, hinfo⟩ := h.shown element helement
      exact ⟨node, hperm.mem_iff.mp hmem, hinfo⟩
    · intro element helement
      obtain ⟨node, hmem, hchild⟩ := h.child element helement
      exact ⟨node, hperm.mem_iff.mp hmem, hchild⟩
    · intro element helement id node hmem
      exact h.parent element helement id node (hperm.mem_iff.mpr hmem)
  · intro id node hmem child hchild
    exact hids.mem_iff.mp (h.closed id node (hperm.mem_iff.mpr hmem) child hchild)

theorem root_only (title : B) : A11yTells root [] [] [(root, ⟨title, []⟩)] where
  ids := nodup_singleton root
  distinct := nodup_nil
  root_mem := mem_singleton_self root
  only := by
    intro id node hmem
    cases mem_singleton.mp hmem
    exact Or.inl rfl
  shown := by
    intro element hmem
    cases hmem
  child := by
    intro element hmem
    cases hmem
  parent := by
    intro element hmem
    cases hmem
  closed := by
    intro id node hmem child hchild
    cases mem_singleton.mp hmem
    cases hchild

theorem mem_of_element (h : A11yTells root synthetic elements nodes)
    {element : A11yElement I B} (helement : element ∈ elements) :
    element.id ∈ nodes.map Prod.fst := by
  obtain ⟨node, hmem, _⟩ := h.shown element helement
  exact mem_map_of_mem hmem

variable [DecidableEq I]

/-- Nothing is repaired if all children are there. -/
theorem repair_of_closed {nodes : List (I × A11yNode I B)}
    (h : ∀ node ∈ nodes, ∀ child ∈ node.2.children, child ∈ nodes.map Prod.fst) :
    A11yNodeBuilder.repair nodes = nodes := by
  have hsame : ∀ node ∈ nodes, (node.1, { node.2 with
      children := node.2.children.filter (fun child => child ∈ nodes.map Prod.fst) }) = node := by
    intro node hmem
    rw [filter_eq_self.mpr (fun child hchild => decide_eq_true (h node hmem child hchild))]
  unfold A11yNodeBuilder.repair
  rw [map_congr_left hsame, map_id']

/-- The node with a further child, if it is the parent. -/
def addChild (parent id : I) (node : I × A11yNode I B) : I × A11yNode I B :=
  if node.1 = parent then (node.1, { node.2 with children := node.2.children ++ [id] }) else node

@[simp] theorem addChild_fst (parent id : I) (node : I × A11yNode I B) :
    (addChild parent id node).1 = node.1 := by
  unfold addChild
  split <;> rfl

@[simp] theorem addChild_info (parent id : I) (node : I × A11yNode I B) :
    (addChild parent id node).2.info = node.2.info := by
  unfold addChild
  split <;> rfl

theorem mem_addChild {parent id child : I} {node : I × A11yNode I B} :
    child ∈ (addChild parent id node).2.children ↔
      child ∈ node.2.children ∨ node.1 = parent ∧ child = id := by
  unfold addChild
  split
  · next heq => simp [heq]
  · next hne => simp [hne]

theorem map_addChild_fst (parent id : I) (nodes : List (I × A11yNode I B)) :
    (nodes.map (addChild parent id)).map Prod.fst = nodes.map Prod.fst := by
  rw [map_map]
  exact map_congr_left (fun node _ => addChild_fst parent id node)

/-- A node is added below a node that is there. -/
def added (parent id : I) (info : B) (nodes : List (I × A11yNode I B)) :
    List (I × A11yNode I B) :=
  (id, ⟨info, []⟩) :: nodes.map (addChild parent id)

variable {node : A11yNode I B} {other : I}

theorem mem_added {parent id : I} {info : B} :
    (other, node) ∈ added parent id info nodes ↔ other = id ∧ node = ⟨info, []⟩ ∨
      ∃ old, (other, old) ∈ nodes ∧ addChild parent id (other, old) = (other, node) := by
  unfold added
  rw [mem_cons, mem_map, Prod.mk.injEq]
  constructor
  · intro hmem
    rcases hmem with heq | ⟨old, hold, heq⟩
    · exact Or.inl heq
    · have hfst := addChild_fst parent id old
      rw [heq] at hfst
      refine Or.inr ⟨old.2, ?_, ?_⟩
      · rw [show other = old.1 from hfst]
        exact hold
      · rw [show other = old.1 from hfst] at heq ⊢
        exact heq
  · intro hmem
    rcases hmem with heq | ⟨old, hold, heq⟩
    · exact Or.inl heq
    · exact Or.inr ⟨_, hold, heq⟩

/-- A child of a node was one before, or is the node that was added. -/
theorem child_of_added {parent id child : I} {info : B}
    (hmem : (other, node) ∈ added parent id info nodes) (hchild : child ∈ node.children) :
    ∃ old, (other, old) ∈ nodes ∧ (child ∈ old.children ∨ other = parent ∧ child = id) := by
  rcases mem_added.mp hmem with ⟨_, rfl⟩ | ⟨old, hold, heq⟩
  · cases hchild
  · rw [show node = (addChild parent id (other, old)).2 by rw [heq]] at hchild
    exact ⟨old, hold, mem_addChild.mp hchild⟩

theorem map_added_fst (parent id : I) (info : B) (nodes : List (I × A11yNode I B)) :
    (added parent id info nodes).map Prod.fst = id :: nodes.map Prod.fst := by
  unfold added
  rw [map_cons, map_addChild_fst]

section

variable (h : A11yTells root synthetic elements nodes) {parent id : I} (info : B)

include h

theorem nodup_added (hnew : id ∉ nodes.map Prod.fst) :
    ((added parent id info nodes).map Prod.fst).Nodup := by
  rw [map_added_fst]
  exact nodup_cons.mpr ⟨hnew, h.ids⟩

theorem closed_added : ∀ other node, (other, node) ∈ added parent id info nodes →
    ∀ child ∈ node.children, child ∈ (added parent id info nodes).map Prod.fst := by
  intro other node hmem child hchild
  rw [map_added_fst]
  obtain ⟨old, hold, hchild | ⟨_, rfl⟩⟩ := child_of_added hmem hchild
  · exact mem_cons_of_mem _ (h.closed other old hold child hchild)
  · exact mem_cons_self ..

variable {element : A11yElement I B}

/-- What holds of the elements that were there. -/
theorem shown_added (helement : element ∈ elements) :
    ∃ node, (element.id, node) ∈ added parent id info nodes ∧ node.info = element.info := by
  obtain ⟨node, hmem, hinfo⟩ := h.shown element helement
  refine ⟨(addChild parent id (element.id, node)).2, mem_added.mpr (Or.inr ⟨node, hmem, ?_⟩), ?_⟩
  · exact Prod.ext (addChild_fst ..) rfl
  · rw [addChild_info]
    exact hinfo

theorem child_added (helement : element ∈ elements) :
    ∃ node, (element.parent, node) ∈ added parent id info nodes ∧
      element.id ∈ node.children := by
  obtain ⟨node, hmem, hchild⟩ := h.child element helement
  refine ⟨(addChild parent id (element.parent, node)).2,
    mem_added.mpr (Or.inr ⟨node, hmem, ?_⟩), ?_⟩
  · exact Prod.ext (addChild_fst ..) rfl
  · exact mem_addChild.mpr (Or.inl hchild)

theorem parent_added (hnew : id ∉ nodes.map Prod.fst) (helement : element ∈ elements)
    (hmem : (other, node) ∈ added parent id info nodes) (hchild : element.id ∈ node.children) :
    other = element.parent := by
  obtain ⟨old, hold, hchild | ⟨_, hchild⟩⟩ := child_of_added hmem hchild
  · exact h.parent element helement other old hold hchild
  · -- the node of the element was there before
    exact absurd (h.mem_of_element helement) (by rw [hchild]; exact hnew)

theorem only_added (hmem : (other, node) ∈ added parent id info nodes) :
    other = id ∧ node.info = info ∨ other = root ∨ other ∈ synthetic ∨
      ∃ element ∈ elements, element.id = other ∧ element.info = node.info := by
  rcases mem_added.mp hmem with ⟨hid, heq⟩ | ⟨old, hold, heq⟩
  · rw [heq]
    exact Or.inl ⟨hid, rfl⟩
  · rw [show node = (addChild parent id (other, old)).2 by rw [heq], addChild_info]
    exact Or.inr (h.only other old hold)

/-- An element pushes its node. -/
theorem push (hnew : id ∉ nodes.map Prod.fst) (hparent : parent ∈ nodes.map Prod.fst) :
    A11yTells root synthetic (elements ++ [⟨id, info, parent⟩])
      (added parent id info nodes) where
  ids := h.nodup_added info hnew
  distinct := by
    rw [map_append, nodup_append]
    refine ⟨h.distinct, nodup_singleton _, ?_⟩
    intro other hother id' hid' heq
    obtain ⟨element, helement, hid⟩ := mem_map.mp hother
    apply hnew
    rw [← show id' = id from mem_singleton.mp hid', ← heq, ← hid]
    exact h.mem_of_element helement
  root_mem := by
    rw [map_added_fst]
    exact mem_cons_of_mem _ h.root_mem
  only := by
    intro other node hmem
    rcases h.only_added info hmem with
      ⟨hid, hinfo⟩ | hroot | hsynthetic | ⟨element, helement, heq⟩
    · exact Or.inr (Or.inr ⟨⟨id, info, parent⟩, by simp, hid.symm, hinfo.symm⟩)
    · exact Or.inl hroot
    · exact Or.inr (Or.inl hsynthetic)
    · exact Or.inr (Or.inr ⟨element, mem_append_left _ helement, heq⟩)
  shown := by
    intro element hmem
    rcases mem_append.mp hmem with helement | hlast
    · exact h.shown_added info helement
    · cases mem_singleton.mp hlast
      exact ⟨⟨info, []⟩, mem_added.mpr (Or.inl ⟨rfl, rfl⟩), rfl⟩
  child := by
    intro element hmem
    rcases mem_append.mp hmem with helement | hlast
    · exact h.child_added info helement
    · cases mem_singleton.mp hlast
      obtain ⟨node, hnode, hfst⟩ := mem_map.mp hparent
      have hold : (parent, node.2) ∈ nodes := by
        rw [← hfst]
        exact hnode
      refine ⟨(addChild parent id (parent, node.2)).2,
        mem_added.mpr (Or.inr ⟨node.2, hold, Prod.ext (addChild_fst ..) rfl⟩), ?_⟩
      exact mem_addChild.mpr (Or.inr ⟨rfl, rfl⟩)
  parent := by
    intro element hmem other node hnode hchild
    rcases mem_append.mp hmem with helement | hlast
    · exact h.parent_added info hnew helement hnode hchild
    · cases mem_singleton.mp hlast
      rcases mem_added.mp hnode with ⟨_, heq⟩ | ⟨old, hold, heq⟩
      · rw [heq] at hchild
        cases hchild
      · rw [show node = (addChild parent id (other, old)).2 by rw [heq]] at hchild
        rcases mem_addChild.mp hchild with hchild | ⟨hother, _⟩
        · exact absurd (h.closed other old hold id hchild) hnew
        · exact hother
  closed := h.closed_added info

/-- A synthetic child is pushed. -/
theorem pushLeaf (hnew : id ∉ nodes.map Prod.fst) :
    A11yTells root (id :: synthetic) elements (added parent id info nodes) where
  ids := h.nodup_added info hnew
  distinct := h.distinct
  root_mem := by
    rw [map_added_fst]
    exact mem_cons_of_mem _ h.root_mem
  only := by
    intro other node hmem
    rcases h.only_added info hmem with ⟨hid, _⟩ | hroot | hsynthetic | helement
    · exact Or.inr (Or.inl (mem_cons.mpr (Or.inl hid)))
    · exact Or.inl hroot
    · exact Or.inr (Or.inl (mem_cons_of_mem _ hsynthetic))
    · exact Or.inr (Or.inr helement)
  shown := fun element helement => h.shown_added info helement
  child := fun element helement => h.child_added info helement
  parent := fun element helement other node hnode hchild =>
    h.parent_added info hnew helement hnode hchild
  closed := h.closed_added info

theorem repair_eq : A11yNodeBuilder.repair nodes = nodes :=
  repair_of_closed (fun node hmem => h.closed node.1 node.2 hmem)

end

end A11yTells

/-! ### Section 3: The builder -/

namespace A11yNodeBuilder

/-- All the nodes of the builder. -/
def records (builder : A11yNodeBuilder I B) : List (I × A11yNode I B) :=
  builder.allNodes ++ builder.stack

theorem records_pop (builder : A11yNodeBuilder I B) : builder.pop.records = builder.records := by
  unfold pop records
  split
  · rfl
  · next node below heq =>
    rw [heq, append_assoc]
    rfl

variable [DecidableEq I] {builder next : A11yNodeBuilder I B} {root : I}

/-- The last node of the stack gets a child. -/
theorem append_pushChild {top : I} {below : List I} (id : I)
    (hstack : builder.stack.map Prod.fst = top :: below)
    (hids : (builder.records.map Prod.fst).Nodup) :
    builder.allNodes ++ pushChild id builder.stack =
      builder.records.map (A11yTells.addChild top id) := by
  have hother : ∀ nodes : List (I × A11yNode I B), top ∉ nodes.map Prod.fst →
      nodes.map (A11yTells.addChild top id) = nodes := by
    intro nodes htop
    have hsame : ∀ node ∈ nodes, A11yTells.addChild top id node = node := by
      intro node hmem
      unfold A11yTells.addChild
      rw [if_neg]
      intro heq
      exact htop (mem_map.mpr ⟨node, hmem, heq⟩)
    rw [map_congr_left hsame, map_id']
  unfold records at hids ⊢
  cases hcases : builder.stack with
  | nil =>
    rw [hcases] at hstack
    cases hstack
  | cons node rest =>
    rw [hcases, map_append, map_cons, nodup_append] at hids
    rw [hcases, map_cons] at hstack
    obtain ⟨htop, _⟩ := List.cons.inj hstack
    obtain ⟨_, hrest, hdisjoint⟩ := hids
    rw [htop] at hrest hdisjoint
    have hall : top ∉ builder.allNodes.map Prod.fst := by
      intro hmem
      exact hdisjoint top hmem top (mem_cons_self ..) rfl
    rw [map_append, map_cons, hother _ hall,
      hother _ (nodup_cons.mp hrest).1]
    unfold A11yTells.addChild
    rw [if_pos htop]
    rfl

/-- What is pushed is new to the nodes. -/
structure Builds (root : I) (opened synthetic : List I) (elements : List (A11yElement I B))
    (builder : A11yNodeBuilder I B) : Prop where
  stack : builder.stack.map Prod.fst = opened ++ [root]
  seen : ∀ id ∈ builder.records.map Prod.fst, id = root ∨ id ∈ builder.seenIds
  tells : A11yTells root synthetic elements builder.records

variable {opened synthetic : List I} {elements : List (A11yElement I B)} {id : I} {info : B}
variable {debugAssertions : Bool}

omit [DecidableEq I] in
theorem builds_beginFrame (root : I) (title : B) :
    Builds root [] [] [] (A11yNodeBuilder.beginFrame root title) where
  stack := rfl
  seen := by
    intro id hmem
    exact Or.inl (mem_singleton.mp hmem)
  tells := A11yTells.root_only title

namespace Builds

section

variable (h : Builds root opened synthetic elements builder)
include h

section

omit [DecidableEq I]

theorem notMem (hnew : id ∉ builder.seenIds) (hroot : id ≠ root) :
    id ∉ builder.records.map Prod.fst := by
  intro hmem
  rcases h.seen id hmem with heq | hseen
  · exact hroot heq
  · exact hnew hseen

theorem exists_top : ∃ below, builder.stack.map Prod.fst = opened.headD root :: below := by
  rw [h.stack]
  cases opened with
  | nil => exact ⟨[], rfl⟩
  | cons top rest => exact ⟨rest ++ [root], rfl⟩

theorem top_mem : opened.headD root ∈ builder.records.map Prod.fst := by
  obtain ⟨below, hbelow⟩ := h.exists_top
  unfold records
  rw [map_append, hbelow]
  exact mem_append_right _ (mem_cons_self ..)

end

end

omit [DecidableEq I] in
theorem map_fst_pushChild (id : I) (stack : List (I × A11yNode I B)) :
    (pushChild id stack).map Prod.fst = stack.map Prod.fst := by
  cases stack <;> rfl

/-- The nodes that were seen, with the one that was added. -/
theorem seen_added (h : Builds root opened synthetic elements builder) {parent : I}
    {nodes : List (I × A11yNode I B)}
    (hperm : (A11yTells.added parent id info builder.records).Perm nodes) :
    ∀ other ∈ nodes.map Prod.fst, other = root ∨ other ∈ id :: builder.seenIds := by
  intro other hmem
  rw [← (hperm.map Prod.fst).mem_iff, A11yTells.map_added_fst] at hmem
  rcases mem_cons.mp hmem with heq | hmem
  · exact Or.inr (mem_cons.mpr (Or.inl heq))
  · exact (h.seen other hmem).imp_right (mem_cons_of_mem _)

theorem push (h : Builds root opened synthetic elements builder) (hnew : id ∉ builder.seenIds)
    (hroot : id ≠ root) :
    ∃ next, builder.push debugAssertions id info = .ok (true, next) ∧
      Builds root (id :: opened) synthetic (elements ++ [⟨id, info, opened.headD root⟩]) next := by
  have hpush : builder.push debugAssertions id info = .ok (true, { builder with
      seenIds := id :: builder.seenIds
      stack := (id, ⟨info, []⟩) :: pushChild id builder.stack }) := by
    unfold A11yNodeBuilder.push canPush
    rw [if_neg hnew]
    rfl
  obtain ⟨below, hbelow⟩ := h.exists_top
  have hperm : (A11yTells.added (opened.headD root) id info builder.records).Perm
      (builder.allNodes ++ (id, ⟨info, []⟩) :: pushChild id builder.stack) := by
    unfold A11yTells.added
    rw [← append_pushChild id hbelow h.tells.ids]
    exact perm_middle.symm
  refine ⟨_, hpush, ?_, ?_, ?_⟩
  · show id :: (pushChild id builder.stack).map Prod.fst = _
    rw [map_fst_pushChild, h.stack]
    rfl
  · exact h.seen_added hperm
  · exact (h.tells.push info (h.notMem hnew hroot) h.top_mem).perm hperm

theorem pushLeaf (h : Builds root opened synthetic elements builder) (hroot : id ≠ root)
    {r : Bool × A11yNodeBuilder I B} (hpush : builder.pushLeaf debugAssertions id info = .ok r) :
    Builds root opened (if r.1 then id :: synthetic else synthetic) elements r.2 := by
  unfold A11yNodeBuilder.pushLeaf canPush at hpush
  split at hpush
  · -- a duplicate is discarded
    split at hpush
    · cases hpush
    · cases hpush
      exact h
  · next hnew =>
    cases hpush
    obtain ⟨below, hbelow⟩ := h.exists_top
    have hperm : (A11yTells.added (opened.headD root) id info builder.records).Perm
        ((builder.allNodes ++ [(id, ⟨info, []⟩)]) ++ pushChild id builder.stack) := by
      unfold A11yTells.added
      rw [← append_pushChild id hbelow h.tells.ids, append_assoc]
      exact perm_middle.symm
    constructor
    · show (pushChild id builder.stack).map Prod.fst = _
      rw [map_fst_pushChild, h.stack]
    · exact h.seen_added hperm
    · exact (h.tells.pushLeaf info (h.notMem hnew hroot)).perm hperm

omit [DecidableEq I] in
theorem pop (h : Builds root (id :: opened) synthetic elements builder) :
    Builds root opened synthetic elements builder.pop := by
  have hpop := records_pop builder
  refine ⟨?_, ?_, ?_⟩
  · have hstack := h.stack
    unfold A11yNodeBuilder.pop
    cases hcases : builder.stack with
    | nil =>
      rw [hcases] at hstack
      cases hstack
    | cons node below =>
      rw [hcases] at hstack
      exact (List.cons.inj hstack).2
  · rw [hpop]
    intro other hmem
    rcases h.seen other hmem with heq | hseen
    · exact Or.inl heq
    · refine Or.inr ?_
      unfold A11yNodeBuilder.pop
      split <;> exact hseen
  · rw [hpop]
    exact h.tells

theorem finalize (h : Builds root opened synthetic elements builder) :
    A11yShows root synthetic elements builder.finalize := by
  have hrepair : builder.finalize = builder.records := h.tells.repair_eq
  rw [hrepair]
  exact h.tells.toA11yShows

end Builds

end A11yNodeBuilder

/-! ### Section 4: The condition -/

namespace A11yCall

/-- The open elements with an id and a role, the innermost first. -/
def opened : List (A11yCall I V K) → List I
  | []                         => []
  | .element id _ :: calls     => id.toList ++ opened calls
  | .view _ _ _ _ :: calls     => opened calls
  | .transaction _ :: calls    => opened calls
  | .deferred _ _ _ :: calls   => opened calls

/-- The elements around the deferred draw that is prepainted, if one is. -/
def deferredIn : List (A11yCall I V K) → List I
  | []                              => []
  | .element _ _ :: calls           => deferredIn calls
  | .view _ _ _ _ :: calls          => deferredIn calls
  | .transaction _ :: calls         => deferredIn calls
  | .deferred _ ancestors _ :: _    => ancestors

/-- Nothing runs around a deferred draw, and every open element has pushed its node. -/
def Nested : List (A11yCall I V K) → Prop
  | []                          => True
  | .element id pushed :: calls => pushed = id.isSome ∧ Nested calls
  | .view _ _ _ _ :: calls      => Nested calls
  | .transaction _ :: calls     => Nested calls
  | .deferred _ _ _ :: calls    => calls = []

theorem ancestors_eq {calls : List (A11yCall I V K)} (h : Nested calls) :
    ancestors calls = opened calls ++ deferredIn calls := by
  induction calls with
  | nil => rfl
  | cons call calls ih =>
    cases call with
    | element id pushed =>
      unfold ancestors opened deferredIn
      rw [ih h.2, append_assoc]
    | view => exact ih h
    | transaction => exact ih h
    | deferred ix around start =>
      rw [show calls = [] from h]
      rfl

theorem headD_ancestors {calls : List (A11yCall I V K)} (h : Nested calls) (root : I)
    (hin : deferredIn calls = [] ∨ opened calls ≠ []) :
    (ancestors calls).headD root = (opened calls).headD root := by
  rw [ancestors_eq h]
  cases hopened : opened calls with
  | nil =>
    rcases hin with hdeferred | hne
    · rw [hdeferred]
      rfl
    · exact absurd hopened hne
  | cons top rest => rfl

end A11yCall

namespace A11yWindow

/-- The update that was sent with a frame shows it. -/
def Shows (root : I) (s : A11yWindow I B V N K) : Prop :=
  s.drawing = false → ∀ nodes, s.update = some nodes →
    A11yShows root s.synthetic (A11yFrame.a11yElements root s.renderedFrame.elements) nodes

/-- While accessibility is active, what is reused and what is taken back has no elements
    with an id and a role.  Such an element is not prepainted twice in a frame, or two with
    one id, and stands in a deferred draw only if nothing around the draw has a node, or
    in another such element of the draw. -/
def Keeps [DecidableEq K] (root : I) (s : A11yWindow I B V N K) : Action I B V N K → Prop
  | .element node => s.activeThisFrame = true → ∀ id info, node = some (id, info) →
      id ≠ root ∧ id ∉ s.nodes.seenIds ∧
        (A11yCall.deferredIn s.calls = [] ∨ A11yCall.opened s.calls ≠ [])
  | .view id view key _ => s.activeThisFrame = true →
      ∀ state, s.reusable id view key = some state →
        ∀ element ∈ s.renderedFrame.elementsIn state.prepaintRange, element.node = none
  | .prepaintDeferred ix => s.activeThisFrame = true →
      ∀ draw, s.nextFrame.deferredDraws[ix]? = some draw → draw.hasElement = false →
        ∀ element ∈ s.renderedFrame.elementsIn draw.prepaintRange, element.node = none
  | .transactFails => s.activeThisFrame = true →
      ∀ index calls, s.calls = .transaction index :: calls →
        ∀ element ∈ s.nextFrame.elements.drop index.elements, element.node = none
  | .syntheticChild id _ => s.activeThisFrame = true → id ≠ root
  | _ => True

/-! ### Section 5: The invariant -/

/-- The builder has the nodes of what was prepainted so far. -/
structure Draws (root : I) (s : A11yWindow I B V N K) : Prop where
  nested : A11yCall.Nested s.calls
  builds : s.nodes.Builds root (A11yCall.opened s.calls) s.synthetic
    (A11yFrame.a11yElements root s.nextFrame.elements)

structure Inv (root : I) (s : A11yWindow I B V N K) : Prop where
  shows : s.Shows root
  idle : s.drawing = false → s.calls = []
  draws : s.drawing = true → s.activeThisFrame = true → s.Draws root

variable {root : I} {s s' : A11yWindow I B V N K} {debugAssertions forceDisabled : Bool}

/-- While a frame is drawn, nothing is said of the update. -/
theorem Inv.of_drawing (hdrawing : s.drawing = true)
    (hdraws : s.activeThisFrame = true → s.Draws root) : s.Inv root where
  shows := fun h => Bool.noConfusion (hdrawing.symm.trans h)
  idle := fun h => Bool.noConfusion (hdrawing.symm.trans h)
  draws := fun _ => hdraws

theorem inv_start : (start : A11yWindow I B V N K).Inv root where
  shows := by
    intro _ nodes hnodes
    cases hnodes
  idle := fun _ => rfl
  draws := fun h => Bool.noConfusion h

/-- A call begins or ends that is none of an element, and only elements are appended that
    have no nodes. -/
theorem Draws.quiet (h : s.Draws root) (hnodes : s'.nodes = s.nodes)
    (hsynthetic : s'.synthetic = s.synthetic) (hnested : A11yCall.Nested s'.calls)
    (hopened : A11yCall.opened s'.calls = A11yCall.opened s.calls)
    (helements : A11yFrame.a11yElements root s'.nextFrame.elements =
      A11yFrame.a11yElements root s.nextFrame.elements) : s'.Draws root where
  nested := hnested
  builds := by
    rw [hnodes, hsynthetic, hopened, helements]
    exact h.builds

theorem a11yElements_reused {frame rendered next : A11yFrame I B} {range : A11yFrame.Range}
    {depth : Nat} {around : List I}
    (hrun : frame.reusePrepaint rendered range depth around = .ok next)
    (hnone : ∀ element ∈ rendered.elementsIn range, element.node = none) :
    A11yFrame.a11yElements root next.elements = A11yFrame.a11yElements root frame.elements := by
  unfold A11yFrame.reusePrepaint at hrun
  split at hrun
  · cases hrun
    have hnil : A11yFrame.a11yElements root ((rendered.elementsIn range).map (fun element =>
        { element with ancestors := A11yFrame.rebase depth around element.ancestors })) = [] := by
      apply A11yFrame.a11yElements_eq_nil
      intro element hmem
      obtain ⟨old, hold, heq⟩ := mem_map.mp hmem
      rw [← heq]
      exact hnone old hold
    rw [A11yFrame.a11yElements_append, hnil, append_nil]
  · cases hrun

theorem Inv.beginFrame (h : s.Inv root) (hdrawing : s.drawing = false)
    (context : CacheContext N) (title : B) :
    (s.beginFrame forceDisabled root context title).Inv root := by
  refine Inv.of_drawing rfl ?_
  intro hactive
  have hcalls : (s.beginFrame forceDisabled root context title).calls = [] := h.idle hdrawing
  constructor
  · rw [hcalls]
    trivial
  · rw [hcalls]
    show A11yNodeBuilder.Builds root [] [] [] (if (!forceDisabled && s.activeFlag) = true then
      A11yNodeBuilder.beginFrame root title else s.nodes)
    have hactive : (!forceDisabled && s.activeFlag) = true := hactive
    rw [if_pos hactive]
    exact A11yNodeBuilder.builds_beginFrame root title

theorem Inv.element [DecidableEq I] [DecidableEq K] (h : s.Inv root)
    (hdrawing : s.drawing = true) {node : Option (I × B)} (hkeeps : s.Keeps root (.element node))
    (hrun : s.element debugAssertions node = .ok s') : s'.Inv root := by
  obtain ⟨pushed, hpush, hrun⟩ := bind_eq_ok.mp hrun
  cases hrun
  refine Inv.of_drawing hdrawing ?_
  intro hactive
  obtain ⟨hnested, hbuilds⟩ := h.draws hdrawing hactive
  unfold pushElement at hpush
  cases node with
  | none =>
    cases hpush
    refine ⟨⟨rfl, hnested⟩, ?_⟩
    rw [A11yFrame.a11yElements_append]
    show A11yNodeBuilder.Builds root _ _ (_ ++ []) s.nodes
    rw [append_nil]
    exact hbuilds
  | some told =>
    obtain ⟨id, info⟩ := told
    obtain ⟨hroot, hnew, hin⟩ := hkeeps hactive id info rfl
    obtain ⟨nodes, hnodes, hnext⟩ := hbuilds.push hnew hroot
    dsimp only at hpush
    rw [if_pos hactive, hnodes] at hpush
    cases hpush
    refine ⟨⟨rfl, hnested⟩, ?_⟩
    rw [← A11yCall.headD_ancestors hnested root hin] at hnext
    rw [A11yFrame.a11yElements_append]
    exact hnext

theorem Inv.view [DecidableEq V] [DecidableEq K] (h : s.Inv root)
    (hdrawing : s.drawing = true) {id : V} {view : N} {key paintedKey : K}
    (hkeeps : s.Keeps root (.view id view key paintedKey))
    (hrun : s.view id view key paintedKey = .ok s') : s'.Inv root := by
  unfold A11yWindow.view at hrun
  split at hrun
  · next state hstate =>
    obtain ⟨frame, hframe, hrun⟩ := bind_eq_ok.mp hrun
    cases hrun
    refine Inv.of_drawing hdrawing ?_
    intro hactive
    have hdraws := h.draws hdrawing hactive
    exact hdraws.quiet rfl rfl hdraws.nested rfl
      (a11yElements_reused hframe (hkeeps hactive state hstate))
  · cases hrun
    refine Inv.of_drawing hdrawing ?_
    intro hactive
    have hdraws := h.draws hdrawing hactive
    exact hdraws.quiet rfl rfl hdraws.nested rfl rfl

theorem Inv.prepaintDeferred [DecidableEq K] (h : s.Inv root)
    (hdrawing : s.drawing = true) (hcalls : s.calls = []) {ix : Nat} {draw : A11yFrame.Draw I}
    (hdraw : s.nextFrame.deferredDraws[ix]? = some draw)
    (hkeeps : s.Keeps root (.prepaintDeferred ix))
    (hrun : s.prepaintDeferred ix draw = .ok s') : s'.Inv root := by
  unfold A11yWindow.prepaintDeferred at hrun
  split at hrun
  · cases hrun
    refine Inv.of_drawing hdrawing ?_
    intro hactive
    exact (h.draws hdrawing hactive).quiet rfl rfl hcalls rfl rfl
  · next hreused =>
    obtain ⟨frame, hframe, hrun⟩ := bind_eq_ok.mp hrun
    cases hrun
    refine Inv.of_drawing hdrawing ?_
    intro hactive
    have hdraws := h.draws hdrawing hactive
    refine hdraws.quiet rfl rfl hdraws.nested rfl ?_
    show A11yFrame.a11yElements root frame.elements = _
    exact a11yElements_reused hframe
      (hkeeps hactive draw hdraw (Bool.eq_false_of_not_eq_true hreused))

/-- What a failed transaction takes back had no nodes. -/
theorem Inv.transactFails [DecidableEq K] (h : s.Inv root) (hdrawing : s.drawing = true)
    {index : A11yFrame.Index} {calls : List (A11yCall I V K)}
    (hcalls : s.calls = .transaction index :: calls) (hkeeps : s.Keeps root .transactFails) :
    Inv root { s with nextFrame := s.nextFrame.truncate index, calls := calls } := by
  refine Inv.of_drawing hdrawing ?_
  intro hactive
  have hdraws := h.draws hdrawing hactive
  have hnested := hdraws.nested
  rw [hcalls] at hnested
  refine hdraws.quiet rfl rfl hnested ?_ ?_
  · rw [hcalls]
    rfl
  · -- the elements up to the index, and those that are taken back
    have hsplit := A11yFrame.a11yElements_append root
      (s.nextFrame.elements.take index.elements) (s.nextFrame.elements.drop index.elements)
    rw [take_append_drop,
      A11yFrame.a11yElements_eq_nil (hkeeps hactive index calls hcalls), append_nil] at hsplit
    exact hsplit.symm

theorem Inv.syntheticChild [DecidableEq I] [DecidableEq K] (h : s.Inv root)
    (hdrawing : s.drawing = true) {id : I} {info : B}
    (hkeeps : s.Keeps root (.syntheticChild id info))
    (hrun : s.syntheticChild debugAssertions id info = .ok s') : s'.Inv root := by
  obtain ⟨r, hpush, hrun⟩ := bind_eq_ok.mp hrun
  cases hrun
  refine Inv.of_drawing hdrawing ?_
  intro hactive
  obtain ⟨hnested, hbuilds⟩ := h.draws hdrawing hactive
  exact ⟨hnested, hbuilds.pushLeaf (hkeeps hactive) hpush⟩

theorem Inv.returns [DecidableEq V] (h : s.Inv root) (hdrawing : s.drawing = true)
    {call : A11yCall I V K} {calls : List (A11yCall I V K)} (hcalls : s.calls = call :: calls) :
    (s.returns call calls).Inv root := by
  cases call with
  | element id pushed =>
    refine Inv.of_drawing hdrawing ?_
    intro hactive
    obtain ⟨hnested, hbuilds⟩ := h.draws hdrawing hactive
    rw [hcalls] at hnested hbuilds
    refine ⟨hnested.2, ?_⟩
    show A11yNodeBuilder.Builds root (A11yCall.opened calls) s.synthetic _
      (if pushed then s.nodes.pop else s.nodes)
    rw [hnested.1]
    cases id with
    | none => exact hbuilds
    | some id => exact hbuilds.pop
  | view _ _ _ _ | transaction _ =>
    refine Inv.of_drawing hdrawing ?_
    intro hactive
    have hdraws := h.draws hdrawing hactive
    have hnested := hdraws.nested
    rw [hcalls] at hnested
    refine hdraws.quiet rfl rfl hnested ?_ rfl
    rw [hcalls]
    rfl
  | deferred ix ancestors start =>
    refine Inv.of_drawing hdrawing ?_
    intro hactive
    have hdraws := h.draws hdrawing hactive
    have hnested := hdraws.nested
    rw [hcalls] at hnested
    have hnil : calls = [] := hnested
    refine hdraws.quiet rfl rfl ?_ ?_ rfl
    · show A11yCall.Nested calls
      rw [hnil]
      trivial
    · rw [hcalls]
      rfl

theorem Inv.endFrame [DecidableEq I] (h : s.Inv root) (hdrawing : s.drawing = true)
    (hcalls : s.calls = []) (carried : V → Bool) : (s.endFrame forceDisabled carried).Inv root where
  shows := by
    intro _ nodes hnodes
    obtain ⟨hactive, heq⟩ := Option.ite_none_right_eq_some.mp hnodes
    rw [← Option.some.inj heq]
    have hdraws := h.draws hdrawing (Bool.and_eq_true_iff.mp hactive).1
    exact hdraws.builds.finalize
  idle := fun _ => hcalls
  draws := fun hnot => Bool.noConfusion hnot

variable [DecidableEq I] [DecidableEq V] [DecidableEq K]

theorem inv_step (h : s.Inv root) {a : Action I B V N K} (hkeeps : s.Keeps root a)
    (hstep : s.step debugAssertions forceDisabled root a = some (.ok s')) : s'.Inv root := by
  -- calls run only while a frame is drawn
  have hdrawing : ∀ {call calls}, s.calls = call :: calls → s.drawing = true := by
    intro call calls hcalls
    by_contra hnot
    rw [h.idle (Bool.eq_false_of_not_eq_true hnot)] at hcalls
    cases hcalls
  cases a with
  | setActive active =>
    cases hstep
    refine ⟨h.shows, h.idle, ?_⟩
    intro hdrawing hactive
    have hdraws := h.draws hdrawing hactive
    exact hdraws.quiet rfl rfl hdraws.nested rfl rfl
  | beginFrame context title =>
    obtain ⟨hidle, heq⟩ := Option.ite_none_left_eq_some.mp hstep
    cases heq
    exact h.beginFrame (Bool.eq_false_of_not_eq_true hidle) context title
  | element node =>
    obtain ⟨hdrawing, hrun⟩ := Option.ite_none_right_eq_some.mp hstep
    exact h.element hdrawing hkeeps (Option.some.inj hrun)
  | view id view key paintedKey =>
    obtain ⟨hdrawing, hrun⟩ := Option.ite_none_right_eq_some.mp hstep
    exact h.view hdrawing hkeeps (Option.some.inj hrun)
  | deferDraw =>
    obtain ⟨hcond, heq⟩ := Option.ite_none_right_eq_some.mp hstep
    cases heq
    refine Inv.of_drawing (Bool.and_eq_true_iff.mp hcond).1 ?_
    intro hactive
    have hdraws := h.draws (Bool.and_eq_true_iff.mp hcond).1 hactive
    exact hdraws.quiet rfl rfl hdraws.nested rfl rfl
  | prepaintDeferred ix =>
    obtain ⟨hcond, heq⟩ := Option.ite_none_right_eq_some.mp hstep
    obtain ⟨hdrawing, hcalls⟩ := Bool.and_eq_true_iff.mp hcond
    obtain ⟨draw, hdraw, hrun⟩ := Option.map_eq_some_iff.mp heq
    exact h.prepaintDeferred hdrawing (isEmpty_iff.mp hcalls) hdraw hkeeps hrun
  | transact =>
    obtain ⟨hdrawing, heq⟩ := Option.ite_none_right_eq_some.mp hstep
    cases heq
    refine Inv.of_drawing hdrawing ?_
    intro hactive
    have hdraws := h.draws hdrawing hactive
    exact hdraws.quiet rfl rfl hdraws.nested rfl rfl
  | transactFails =>
    simp only [step] at hstep
    split at hstep
    · next index calls hcalls =>
      cases hstep
      exact h.transactFails (hdrawing hcalls) hcalls hkeeps
    · cases hstep
  | syntheticChild id info =>
    simp only [step] at hstep
    split at hstep
    · next calls hcalls =>
      exact h.syntheticChild (hdrawing hcalls) hkeeps (Option.some.inj hstep)
    · cases hstep
  | returns =>
    simp only [step] at hstep
    split at hstep
    · cases hstep
    · next call calls hcalls =>
      cases hstep
      exact h.returns (hdrawing hcalls) hcalls
  | endFrame carried =>
    obtain ⟨hcond, heq⟩ := Option.ite_none_right_eq_some.mp hstep
    obtain ⟨hdrawing, hcalls⟩ := Bool.and_eq_true_iff.mp hcond
    cases heq
    exact h.endFrame hdrawing (isEmpty_iff.mp hcalls) carried

/-! ### Section 6: The result -/

theorem inv_inductive (B V N K : Type) [DecidableEq V] [DecidableEq K]
    (debugAssertions forceDisabled : Bool) (root : I) :
    (machine B V N K debugAssertions forceDisabled root).Inductive (Keeps root) (Inv root) where
  start := inv_start
  step := fun _ _ _ h hkeeps hstep => inv_step h hkeeps hstep

/-- **The accessibility tree shows what is on screen** in the runs in which nothing that is
    reused or taken back has an element with an id and a role. -/
theorem a11y_tree_shown (debugAssertions forceDisabled : Bool) (root : I)
    (s : A11yWindow I B V N K)
    (hs : (machine B V N K debugAssertions forceDisabled root).Reaches (Keeps root) s) :
    s.Shows root :=
  ((inv_inductive B V N K debugAssertions forceDisabled root).holds hs).shows

/-- A frame with one such element. -/
theorem a11y_tree_shown_button :
    ∃ s : A11yWindow Nat Nat Nat Nat Nat,
      s.update = some [(1, ⟨7, []⟩), (0, ⟨0, [1]⟩)] ∧ s.Shows 0 := by
  have hbegun : (machine Nat Nat Nat Nat true false 0).Reaches (Keeps 0) start := .start
  have hactive := hbegun.step (Action.setActive true) trivial rfl
  have hframe := hactive.step (Action.beginFrame ⟨fun _ => false, false⟩ 0) trivial rfl
  have hopen := hframe.step (Action.element (some (1, 7))) (by
    intro _ id info heq
    cases heq
    exact ⟨by decide, by decide, Or.inl rfl⟩) rfl
  have hclosed := hopen.step Action.returns trivial rfl
  have hdrawn := hclosed.step (Action.endFrame (fun _ => false)) trivial rfl
  exact ⟨_, rfl, a11y_tree_shown true false 0 _ hdrawn⟩

/-- A cached view with such an element is drawn in one frame and reused in the next: the
    second update has the root alone. -/
theorem reused_view_not_shown :
    ¬ ∀ s : A11yWindow Nat Nat Nat Nat Nat,
      (machine Nat Nat Nat Nat false false 0).Reaches (fun _ _ => True) s → s.Shows 0 := by
  intro h
  have hrun : ∃ s, (machine Nat Nat Nat Nat false false 0).run start
      [.setActive true,
        .beginFrame ⟨fun _ => false, false⟩ 0, .element none, .view 0 0 0 0,
        .element (some (1, 7)), .returns, .returns, .returns, .endFrame (fun _ => false),
        .beginFrame ⟨fun _ => false, false⟩ 0, .element none, .view 0 0 0 0,
        .returns, .endFrame (fun _ => false)] = some (.ok s) ∧
      s.drawing = false ∧ s.renderedFrame.elements = [⟨none, []⟩, ⟨some (1, 7), []⟩] ∧
      s.update = some [(0, ⟨0, []⟩)] := ⟨_, rfl, rfl, rfl, rfl⟩
  obtain ⟨s, hrun, hidle, helements, hupdate⟩ := hrun
  have hreaches := Machine.Reaches.start.run (.of_forall (fun _ _ _ => trivial) _) hrun
  have hshown := (h s hreaches hidle _ hupdate).shown ⟨1, 7, 0⟩ (by
    rw [helements]
    exact mem_singleton_self _)
  obtain ⟨node, hmem, _⟩ := hshown
  cases mem_singleton.mp hmem

end A11yWindow

end Gpui
