import Gpui.Lib.RootedTree
import Gpui.Window.A11ySpec

/-! # The update that is made of a frame's nodes: the model

    The builder of the accessibility tree, without debug assertions and with the part that
    `A11yNodeBuilder` leaves out: which node has the focus.  Elements push and pop nodes in
    any order, with ids of any kind: those of synthetic children are chosen by the program.
    At the end the update for AccessKit is taken out and repaired. -/

namespace Gpui

/-- `accesskit::TreeUpdate`; the id of its tree's root is always the same. -/
structure TreeUpdate (I B : Type) where
  nodes : List (I × A11yNode I B)
  focus : I

structure A11yUpdateBuilder (I B : Type) extends A11yNodeBuilder I B where
  /-- The node that is considered focused. -/
  focus : Option I
  /-- The node that stands in for the focused one around it. -/
  activeDescendant : Option I

namespace TreeUpdate

variable {I B : Type}

/-- The node `parent` lists `child`. -/
def Child (update : TreeUpdate I B) (parent child : I) : Prop :=
  RootedTree.Child Prod.fst (fun node => node.2.children) update.nodes parent child

variable [DecidableEq I]

/-- A tree that AccessKit takes. -/
structure WellFormed (root : I) (update : TreeUpdate I B) : Prop where
  distinct : (update.nodes.map Prod.fst).Nodup
  root_once : (update.nodes.map Prod.fst).count root = 1
  one_parent : ∀ id ∈ update.nodes.map Prod.fst, id ≠ root →
    (update.nodes.flatMap (fun node => node.2.children)).count id = 1
  present : ∀ node ∈ update.nodes, ∀ child ∈ node.2.children,
    child ∈ update.nodes.map Prod.fst
  reachable : ∀ id ∈ update.nodes.map Prod.fst, Relation.ReflTransGen update.Child root id
  acyclic : ∀ id, ¬ Relation.TransGen update.Child id id
  focus_mem : update.focus ∈ update.nodes.map Prod.fst

/-- `repair_tree_update`. -/
def repair (root : I) (update : TreeUpdate I B) : TreeUpdate I B where
  nodes := A11yNodeBuilder.repair update.nodes
  focus := if update.focus ∈ update.nodes.map Prod.fst then update.focus else root

end TreeUpdate

namespace A11yUpdateBuilder

inductive Call (I B : Type) where
  | push (id : I) (info : B)
  | pushLeaf (id : I) (info : B)
  | pop
  | setFocus (id : I)
  | setActiveDescendant (id : I)

/-- The id of the node that a call pushes. -/
def Call.pushed {I B : Type} : Call I B → Option I
  | .push id _              => some id
  | .pushLeaf id _          => some id
  | .pop                    => none
  | .setFocus _             => none
  | .setActiveDescendant _  => none

variable {I B : Type}

def beginFrame (root : I) (title : B) : A11yUpdateBuilder I B where
  toA11yNodeBuilder := .beginFrame root title
  focus := none
  activeDescendant := none

def pop (self : A11yUpdateBuilder I B) : A11yUpdateBuilder I B :=
  { self with toA11yNodeBuilder := self.toA11yNodeBuilder.pop }

/-- The last call wins. -/
def setFocus (self : A11yUpdateBuilder I B) (id : I) : A11yUpdateBuilder I B :=
  { self with focus := some id }

/-- The last call wins. -/
def setActiveDescendant (self : A11yUpdateBuilder I B) (id : I) : A11yUpdateBuilder I B :=
  { self with activeDescendant := some id }

variable [DecidableEq I]

def push (self : A11yUpdateBuilder I B) (id : I) (info : B) :
    Except A11yPanic (A11yUpdateBuilder I B) := do
  let r ← self.toA11yNodeBuilder.push false id info
  .ok { self with toA11yNodeBuilder := r.2 }

def pushLeaf (self : A11yUpdateBuilder I B) (id : I) (info : B) :
    Except A11yPanic (A11yUpdateBuilder I B) := do
  let r ← self.toA11yNodeBuilder.pushLeaf false id info
  .ok { self with toA11yNodeBuilder := r.2 }

/-- Whether a node was pushed in this frame.  The root counts. -/
def hasNode (root : I) (self : A11yUpdateBuilder I B) (id : I) : Bool :=
  id = root || id ∈ self.seenIds

/-- The focus that is reported. -/
def reportedFocus (root : I) (self : A11yUpdateBuilder I B) : I :=
  match self.activeDescendant with
  | some id => if self.hasNode root id then id else self.focus.getD root
  | none    => self.focus.getD root

def finalize (root : I) (self : A11yUpdateBuilder I B) : TreeUpdate I B :=
  -- what is left on the stack is popped, the last first
  TreeUpdate.repair root ⟨self.allNodes ++ self.stack, self.reportedFocus root⟩

/-- One call; `none` for a pop that matches no push that was successful. -/
def step (self : A11yUpdateBuilder I B) :
    Call I B → Option (Except A11yPanic (A11yUpdateBuilder I B))
  | .push id info            => some (self.push id info)
  | .pushLeaf id info        => some (self.pushLeaf id info)
  | .pop                     => if 1 < self.stack.length then some (.ok self.pop) else none
  | .setFocus id             => some (.ok (self.setFocus id))
  | .setActiveDescendant id  => some (.ok (self.setActiveDescendant id))

/-- The calls of a frame.  `root` is `ROOT_NODE_ID`. -/
def machine (root : I) (title : B) : Machine A11yPanic (A11yUpdateBuilder I B) (Call I B) where
  start := .beginFrame root title
  step := step

end A11yUpdateBuilder

end Gpui

/-! # The update that is made of a frame's nodes: what holds of it

    The nodes of the builder are a tree at any time, as long as no element pushes a node
    with the id of the root.  The set of the ids that were seen does not have the root's, so
    the first such node is taken, and then the id is there twice.  Every other repeated id
    is refused.

    * `Inv` is what holds after any calls.
    * **`update_wellFormed_iff`**: the update is well formed iff no call pushes the id of
      the root. -/

namespace Gpui

open A11yNodeBuilder (records records_pop)

variable {I B : Type} [DecidableEq I] {root id : I} {title : B}

/-! ### Section 1: The tree of the nodes -/

/-- The nodes are a tree. -/
def A11yIsTree (root : I) (nodes : List (I × A11yNode I B)) : Prop :=
  RootedTree.IsTree Prod.fst (fun node : I × A11yNode I B => node.2.children) root nodes

omit [DecidableEq I] in
theorem A11yIsTree.root_only (root : I) (title : B) :
    A11yIsTree root [(root, ⟨title, []⟩)] :=
  RootedTree.IsTree.singleton (root, (⟨title, []⟩ : A11yNode I B)) rfl

theorem attaches_addChild (parent id : I) (info : B) :
    RootedTree.IsTree.Attaches Prod.fst (fun node : I × A11yNode I B => node.2.children)
      parent (id, ⟨info, []⟩) (A11yTells.addChild parent id) where
  key_eq := A11yTells.addChild_fst parent id
  children_eq := by
    intro node
    unfold A11yTells.addChild
    split <;> rfl

theorem A11yIsTree.added {nodes : List (I × A11yNode I B)} (h : A11yIsTree root nodes)
    {parent : I} (info : B) (hparent : parent ∈ nodes.map Prod.fst)
    (hnew : id ∉ nodes.map Prod.fst) :
    A11yIsTree root (A11yTells.added parent id info nodes) :=
  RootedTree.IsTree.attach h (attaches_addChild parent id info) hparent hnew rfl

/-- Nothing is repaired in a tree. -/
theorem A11yIsTree.repair_eq {nodes : List (I × A11yNode I B)} (h : A11yIsTree root nodes) :
    A11yNodeBuilder.repair nodes = nodes :=
  A11yTells.repair_of_closed (fun _ hmem _ => RootedTree.IsTree.child_mem h hmem)

theorem map_fst_repair (nodes : List (I × A11yNode I B)) :
    (A11yNodeBuilder.repair nodes).map Prod.fst = nodes.map Prod.fst := by
  unfold A11yNodeBuilder.repair
  rw [List.map_map]
  rfl

namespace TreeUpdate

theorem repair_focus_mem {update : TreeUpdate I B} (hroot : root ∈ update.nodes.map Prod.fst) :
    (update.repair root).focus ∈ (update.repair root).nodes.map Prod.fst := by
  unfold repair
  rw [map_fst_repair]
  split
  · next hfocus => exact hfocus
  · exact hroot

/-- A tree with a focus in it is an update that AccessKit takes. -/
theorem wellFormed_of_isTree {update : TreeUpdate I B} (h : A11yIsTree root update.nodes)
    (hfocus : update.focus ∈ update.nodes.map Prod.fst) : update.WellFormed root where
  distinct := h.keys
  root_once := List.count_eq_one_of_mem h.keys (RootedTree.IsTree.root_mem h)
  one_parent := fun _ hid hne => RootedTree.IsTree.count_child h hid hne
  present := fun _ hnode _ hchild => RootedTree.IsTree.child_mem h hnode hchild
  reachable := h.reachable
  acyclic := RootedTree.IsTree.acyclic h
  focus_mem := hfocus

end TreeUpdate

/-! ### Section 2: What a call does -/

namespace A11yUpdateBuilder

variable {s s' : A11yUpdateBuilder I B}

/-- What a push that is accepted changes: a leaf is attached to the top of the stack. -/
structure Pushes (id : I) (info : B) (s s' : A11yUpdateBuilder I B) : Prop where
  new : id ∉ s.seenIds
  seen : s'.seenIds = id :: s.seenIds
  stack : s.stack ≠ [] → s'.stack ≠ []
  records : s'.records.Perm ((id, ⟨info, []⟩) ::
    (s.allNodes ++ A11yNodeBuilder.pushChild id s.stack))

/-- What the other calls keep, and a push that is refused. -/
structure Keeps (s s' : A11yUpdateBuilder I B) : Prop where
  seen : s'.seenIds = s.seenIds
  stack : s.stack ≠ [] → s'.stack ≠ []
  records : s'.records = s.records

omit [DecidableEq I] in
theorem Keeps.of_eq (h : s'.toA11yNodeBuilder = s.toA11yNodeBuilder) : Keeps s s' where
  seen := by rw [h]
  stack := by
    rw [h]
    exact id
  records := by rw [h]

theorem push_cases {info : B} (h : s.push id info = .ok s') :
    id ∈ s.seenIds ∧ Keeps s s' ∨ Pushes id info s s' := by
  unfold push A11yNodeBuilder.push A11yNodeBuilder.canPush at h
  split at h
  · next hseen =>
    cases h
    exact Or.inl ⟨hseen, Keeps.of_eq rfl⟩
  · next hnew =>
    cases h
    refine Or.inr ⟨hnew, rfl, fun _ => List.cons_ne_nil _ _, ?_⟩
    exact List.perm_middle

theorem pushLeaf_cases {info : B} (h : s.pushLeaf id info = .ok s') :
    id ∈ s.seenIds ∧ Keeps s s' ∨ Pushes id info s s' := by
  unfold pushLeaf A11yNodeBuilder.pushLeaf A11yNodeBuilder.canPush at h
  split at h
  · next hseen =>
    cases h
    exact Or.inl ⟨hseen, Keeps.of_eq rfl⟩
  · next hnew =>
    cases h
    refine Or.inr ⟨hnew, rfl, ?_, ?_⟩
    · intro hstack
      show A11yNodeBuilder.pushChild id s.stack ≠ []
      cases hcases : s.stack with
      | nil => exact absurd hcases hstack
      | cons node below => exact List.cons_ne_nil _ _
    · show ((s.allNodes ++ [_]) ++ A11yNodeBuilder.pushChild id s.stack).Perm _
      rw [List.append_assoc]
      exact List.perm_middle

omit [DecidableEq I] in
theorem pop_keeps (hlength : 1 < s.stack.length) : Keeps s s.pop where
  seen := by
    unfold pop A11yNodeBuilder.pop
    split <;> rfl
  stack := by
    intro _
    unfold pop A11yNodeBuilder.pop
    split
    · next heq =>
      rw [heq] at hlength
      cases hlength
    · next node below heq =>
      rw [heq, List.length_cons] at hlength
      exact List.ne_nil_of_length_pos (Nat.lt_of_succ_lt_succ hlength)
  records := records_pop s.toA11yNodeBuilder

/-- Every call pushes a node or keeps the nodes, and it sees the id that it pushes. -/
theorem step_cases {call : Call I B} (h : s.step call = some (.ok s')) :
    (∃ id info, call.pushed = some id ∧ Pushes id info s s') ∨
      (∀ id, call.pushed = some id → id ∈ s.seenIds) ∧ Keeps s s' := by
  cases call with
  | push id info =>
    rcases push_cases (Option.some.inj h) with ⟨hseen, hkeeps⟩ | hpushes
    · exact Or.inr ⟨fun _ heq => Option.some.inj heq ▸ hseen, hkeeps⟩
    · exact Or.inl ⟨id, info, rfl, hpushes⟩
  | pushLeaf id info =>
    rcases pushLeaf_cases (Option.some.inj h) with ⟨hseen, hkeeps⟩ | hpushes
    · exact Or.inr ⟨fun _ heq => Option.some.inj heq ▸ hseen, hkeeps⟩
    · exact Or.inl ⟨id, info, rfl, hpushes⟩
  | pop =>
    obtain ⟨hlength, rfl⟩ := Machine.guarded_ok_iff.mp h
    exact Or.inr ⟨by simp [Call.pushed], pop_keeps hlength⟩
  | setFocus _ | setActiveDescendant _ =>
    cases h
    exact Or.inr ⟨by simp [Call.pushed], Keeps.of_eq rfl⟩

/-! ### Section 3: What holds after any calls -/

/-- The ids are the root's and the seen ones.  The nodes are a tree while the root's id is
    not seen. -/
structure Inv (root : I) (s : A11yUpdateBuilder I B) : Prop where
  stack : s.stack ≠ []
  seen : s.seenIds.Nodup
  ids : (s.records.map Prod.fst).Perm (root :: s.seenIds)
  tree : root ∉ s.seenIds → A11yIsTree root s.records

section

omit [DecidableEq I]

theorem inv_beginFrame (root : I) (title : B) : (beginFrame root title).Inv root where
  stack := List.cons_ne_nil _ _
  seen := List.nodup_nil
  ids := List.Perm.refl _
  tree := fun _ => A11yIsTree.root_only root title

theorem Inv.keeps (h : s.Inv root) (hkeeps : Keeps s s') : s'.Inv root where
  stack := hkeeps.stack h.stack
  seen := hkeeps.seen ▸ h.seen
  ids := by
    rw [hkeeps.records, hkeeps.seen]
    exact h.ids
  tree := by
    rw [hkeeps.records, hkeeps.seen]
    exact h.tree

end

theorem Inv.pushes {info : B} (h : s.Inv root) (hpushes : Pushes id info s s') :
    s'.Inv root where
  stack := hpushes.stack h.stack
  seen := by
    rw [hpushes.seen]
    exact List.nodup_cons.mpr ⟨hpushes.new, h.seen⟩
  ids := by
    have hsame : (s.allNodes ++ A11yNodeBuilder.pushChild id s.stack).map Prod.fst =
        s.records.map Prod.fst := by
      unfold A11yNodeBuilder.records
      rw [List.map_append, List.map_append, A11yNodeBuilder.Builds.map_fst_pushChild]
    have hids := hpushes.records.map Prod.fst
    rw [List.map_cons, hsame] at hids
    rw [hpushes.seen]
    exact hids.trans ((h.ids.cons id).trans (List.Perm.swap _ _ _))
  tree := by
    intro hroot
    rw [hpushes.seen, List.mem_cons, not_or] at hroot
    have htree := h.tree hroot.2
    obtain ⟨node, below, hstack⟩ := List.exists_cons_of_ne_nil h.stack
    have hnew : id ∉ s.records.map Prod.fst := by
      rw [h.ids.mem_iff, List.mem_cons, not_or]
      exact ⟨Ne.symm hroot.1, hpushes.new⟩
    have htop : node.1 ∈ s.records.map Prod.fst := by
      apply List.mem_map_of_mem
      unfold A11yNodeBuilder.records
      rw [hstack]
      exact List.mem_append_right _ (List.mem_cons_self ..)
    have hbelow : s.stack.map Prod.fst = node.1 :: below.map Prod.fst := by
      rw [hstack]
      rfl
    have happend := A11yNodeBuilder.append_pushChild id hbelow htree.keys
    have hrecords := hpushes.records
    rw [happend] at hrecords
    exact (htree.added info htop hnew).perm hrecords.symm

theorem inv_inductive (root : I) (title : B) :
    (machine root title).Inductive (fun _ _ => True) (Inv root) where
  start := inv_beginFrame root title
  step := by
    intro s call s' h _ hstep
    rcases step_cases hstep with ⟨id, info, _, hpushes⟩ | ⟨_, hkeeps⟩
    · exact h.pushes hpushes
    · exact h.keeps hkeeps

/-- The seen ids are those that the calls push. -/
theorem mem_seenIds_run {calls : List (Call I B)} (id : I)
    (hrun : (machine root title).run s calls = some (.ok s')) :
    id ∈ s'.seenIds ↔ id ∈ s.seenIds ∨ ∃ call ∈ calls, call.pushed = some id := by
  induction calls generalizing s with
  | nil =>
    cases hrun
    simp
  | cons call rest ih =>
    unfold Machine.run at hrun
    split at hrun
    · cases hrun
    · cases hrun
    · next next hstep =>
      have hfirst : id ∈ next.seenIds ↔ id ∈ s.seenIds ∨ call.pushed = some id := by
        rcases step_cases hstep with ⟨other, info, hcall, hpushes⟩ | ⟨hseen, hkeeps⟩
        · rw [hpushes.seen, hcall, List.mem_cons, Option.some.injEq, or_comm, eq_comm]
        · rw [hkeeps.seen]
          constructor
          · exact Or.inl
          · intro hmem
            rcases hmem with hmem | hcall
            · exact hmem
            · exact hseen id hcall
      rw [ih hrun, hfirst, List.exists_mem_cons_iff, or_assoc]

/-! ### Section 4: The update -/

theorem Inv.finalize_ids (h : s.Inv root) :
    ((s.finalize root).nodes.map Prod.fst).Perm (root :: s.seenIds) := by
  show ((A11yNodeBuilder.repair s.records).map Prod.fst).Perm _
  rw [map_fst_repair]
  exact h.ids

theorem Inv.finalize_wellFormed_iff (h : s.Inv root) :
    (s.finalize root).WellFormed root ↔ root ∉ s.seenIds := by
  constructor
  · -- a root that is seen is there twice
    intro hformed
    exact (List.nodup_cons.mp (h.finalize_ids.nodup_iff.mp hformed.distinct)).1
  · intro hroot
    have htree := h.tree hroot
    have hnodes : (s.finalize root).nodes = s.records := htree.repair_eq
    apply TreeUpdate.wellFormed_of_isTree
    · rw [hnodes]
      exact htree
    · exact TreeUpdate.repair_focus_mem (RootedTree.IsTree.root_mem htree)

/-- **The update of a frame is a tree that AccessKit takes iff no call pushes a node with
    the id of the root.** -/
theorem update_wellFormed_iff (root : I) (title : B) (calls : List (Call I B))
    (s : A11yUpdateBuilder I B)
    (hrun : (machine root title).run (.beginFrame root title) calls = some (.ok s)) :
    (s.finalize root).WellFormed root ↔ ∀ call ∈ calls, call.pushed ≠ some root := by
  have hreaches := Machine.Reaches.start.run (.of_forall (fun _ _ _ => trivial) _) hrun
  have hinv := (inv_inductive root title).holds hreaches
  rw [hinv.finalize_wellFormed_iff, mem_seenIds_run root hrun]
  constructor
  · intro h call hcall hpushed
    exact h (Or.inr ⟨call, hcall, hpushed⟩)
  · intro h hmem
    rcases hmem with hmem | ⟨call, hcall, hpushed⟩
    · cases hmem
    · exact h call hcall hpushed

/-- Elements with the ids 1 and 2, the second one again, and a leaf. -/
theorem update_wellFormed_iff_nested :
    ∃ s : A11yUpdateBuilder Nat Nat, (s.finalize 0).nodes =
      [(3, ⟨7, []⟩), (2, ⟨6, [3]⟩), (1, ⟨5, [2]⟩), (0, ⟨9, [1]⟩)] ∧
      ((s.finalize 0).WellFormed 0 ↔
        ∀ call ∈ [Call.push 1 5, .push 2 6, .push 2 8, .setActiveDescendant 4, .pushLeaf 3 7,
          .pop, .setFocus 2, .pop], call.pushed ≠ some 0) :=
  ⟨_, rfl, update_wellFormed_iff 0 9 _ _ rfl⟩

/-- A synthetic child with the id of the root is taken. -/
theorem root_pushed_twice :
    ¬ ∀ (calls : List (Call Nat Nat)) (s : A11yUpdateBuilder Nat Nat),
      (machine 0 9).run (.beginFrame 0 9) calls = some (.ok s) →
        (s.finalize 0).WellFormed 0 := by
  intro h
  have hformed := h [.push 1 5, .pushLeaf 0 7, .pop] _ rfl
  exact absurd hformed.distinct (by decide)

end A11yUpdateBuilder

end Gpui
