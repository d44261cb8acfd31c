import Gpui.Panic
import Gpui.Scene.Geometry

/-! # BoundsTree: the model

    An R-tree that gives every inserted rectangle an order above those it
    overlaps.  All nodes stand in one vector and refer to their children by
    index.  Orders are natural numbers and coordinates are exact.

    `insert_path` and `search_stack` are buffers that are empty between the
    operations; here they are local.  Both are lists with the top at the head. -/

namespace Gpui

open Exec (Next loop)

/-- Maximum children per internal node. -/
def maxChildren : Nat := 12

inductive NodeKind where
  | leaf (order : Nat)
  /-- The filled part of the array of child indices. -/
  | internal (children : List Nat)
  deriving DecidableEq, Repr

structure Node (U : Type) where
  bounds : Bounds U
  maxOrder : Nat
  kind : NodeKind
  deriving DecidableEq, Repr

structure BoundsTree (U : Type) where
  nodes : List (Node U)
  root : Option Nat
  maxLeaf : Option Nat
  deriving Repr

/-! ## The arrays of child indices -/

namespace NodeChildren

def push (children : List Nat) (index : Nat) : Run (List Nat) :=
  if children.length < maxChildren then .ok (children ++ [index]) else .error .debugAssert

def swap (children : List Nat) (i j : Nat) : Run (List Nat) := do
  let a ← getIndex children i
  let b ← getIndex children j
  .ok ((children.set i b).set j a)

end NodeChildren

namespace BoundsTree

variable {U : Type} [AddCommGroup U] [LinearOrder U]

def empty : BoundsTree U := ⟨[], none, none⟩

def clear (_ : BoundsTree U) : BoundsTree U := empty

/-! ## Finding the maximum order -/

/-- The children that can improve on `maxFound`. -/
def liveChildren (nodes : List (Node U)) (maxFound : Nat) : List Nat → Run (List Nat)
  | [] => .ok []
  | index :: children => do
      let child ← getIndex nodes index
      let live ← liveChildren nodes maxFound children
      .ok (if maxFound < child.maxOrder then index :: live else live)

/-- One turn of the search: the stack, and the best order so far. -/
def searchBody (nodes : List (Node U)) (query : Bounds U) :
    List Nat × Nat → Run (Next (List Nat × Nat) Nat)
  | ([], maxFound) => .ok (.done maxFound)
  | (index :: stack, maxFound) => do
      let node ← getIndex nodes index
      if node.maxOrder ≤ maxFound then .ok (.again (stack, maxFound))
      else if !query.intersects node.bounds then .ok (.again (stack, maxFound))
      else
        match node.kind with
        | .leaf order => .ok (.again (stack, max maxFound order))
        | .internal children => do
            -- the last child is popped first
            let live ← liveChildren nodes maxFound children
            .ok (.again (live.reverse ++ stack, maxFound))

def findMaxOrdering (tree : BoundsTree U) (query : Bounds U) : Run Nat :=
  match tree.root with
  | none => .ok 0
  | some root => do
      let slowPath := loop .loopBound (searchBody tree.nodes query)
        (tree.nodes.length + 1) ([root], 0)
      match tree.maxLeaf with
      | none => slowPath
      | some maxLeaf => do
          let maxNode ← getIndex tree.nodes maxLeaf
          if query.intersects maxNode.bounds then .ok maxNode.maxOrder else slowPath

/-! ## Inserting a leaf -/

/-- The children after the first one, from position `pos`, against the best child
    so far and its cost. -/
def bestOf (nodes : List (Node U)) (bounds : Bounds U) :
    List Nat → Nat → Nat → Nat → U → Run (Nat × Nat)
  | [], _, bestIndex, bestPos, _ => .ok (bestIndex, bestPos)
  | index :: children, pos, bestIndex, bestPos, bestCost => do
      let child ← getIndex nodes index
      let cost := (bounds.union child.bounds).halfPerimeter
      if cost < bestCost then bestOf nodes bounds children (pos + 1) index pos cost
      else bestOf nodes bounds children (pos + 1) bestIndex bestPos bestCost

/-- The child that grows least, and its position. -/
def bestChild (nodes : List (Node U)) (bounds : Bounds U) (children : List Nat) :
    Run (Nat × Nat) :=
  match children with
  | [] => .error .indexOutOfRange
  | index :: children => do
      let child ← getIndex nodes index
      bestOf nodes bounds children 1 index 0 (bounds.union child.bounds).halfPerimeter

/-- A new leaf and a sibling, with the larger order at the end. -/
def pair (newLeaf order sibling siblingOrder : Nat) : List Nat :=
  if order > siblingOrder then [sibling, newLeaf] else [newLeaf, sibling]

/-- The internal node over a new leaf and its sibling. -/
def pairNode (newLeaf : Nat) (bounds : Bounds U) (order : Nat) (sibling : Nat)
    (siblingNode : Node U) : Node U where
  bounds := siblingNode.bounds.union bounds
  maxOrder := max siblingNode.maxOrder order
  kind := .internal (pair newLeaf order sibling siblingNode.maxOrder)

/-- A new leaf in a node that has room for it. -/
def addChild (nodes : List (Node U)) (newLeaf : Nat) (bounds : Bounds U) (order : Nat)
    (current : Nat) (node : Node U) (children : List Nat) : Run (List (Node U)) := do
  let children ← NodeChildren.push children newLeaf
  let last := children.length - 1
  let children ← if order ≤ node.maxOrder then NodeChildren.swap children (last - 1) last
    else .ok children
  .ok (nodes.set current
    ⟨node.bounds.union bounds, max node.maxOrder order, .internal children⟩)

/-- A leaf of a full node is replaced by an internal node over that leaf and the
    new one. -/
def splitChild (nodes : List (Node U)) (newLeaf : Nat) (bounds : Bounds U) (order : Nat)
    (current : Nat) (node : Node U) (children : List Nat) (best pos : Nat) (sibling : Node U) :
    Run (List (Node U)) := do
  let newInternal := nodes.length
  let newInternalMax := max sibling.maxOrder order
  let nodes := nodes ++ [pairNode newLeaf bounds order best sibling]
  let childrenLen := children.length
  let children := children.set pos newInternal
  let children ← if newInternalMax > node.maxOrder
    then NodeChildren.swap children pos (childrenLen - 1) else .ok children
  .ok (nodes.set current { node with kind := .internal children })

/-- One turn of the descent: the path above the current node. -/
def descendBody (nodes : List (Node U)) (newLeaf : Nat) (bounds : Bounds U) (order : Nat) :
    List Nat × Nat → Run (Next (List Nat × Nat) (List (Node U) × List Nat))
  | (path, current) => do
      let node ← getIndex nodes current
      match node.kind with
      | .leaf _ => .error .unreachableCode
      | .internal children => do
          let path := current :: path
          let (best, pos) ← bestChild nodes bounds children
          let child ← getIndex nodes best
          match child.kind with
          | .internal _ => .ok (.again (path, best))
          | .leaf _ =>
              if children.length < maxChildren then do
                let nodes ← addChild nodes newLeaf bounds order current node children
                .ok (.done (nodes, path))
              else do
                let nodes ← splitChild nodes newLeaf bounds order current node children best pos
                  child
                .ok (.done (nodes, path))

/-- Move the updated child to the end. -/
def raiseChild (kind : NodeKind) (updated : Option Nat) : Run NodeKind :=
  match updated, kind with
  | some child, .internal children =>
      match children.idxOf? child with
      | none => .ok kind
      | some pos =>
          let last := children.length - 1
          if pos ≠ last then do
            let children ← NodeChildren.swap children pos last
            .ok (.internal children)
          else .ok kind
  | _, _ => .ok kind

/-- A node on the way back up to the root. -/
def updateNode (node : Node U) (bounds : Bounds U) (order : Nat) (updated : Option Nat) :
    Run (Node U) :=
  if node.maxOrder < order then do
    let kind ← raiseChild node.kind updated
    .ok ⟨node.bounds.union bounds, order, kind⟩
  else
    .ok { node with bounds := node.bounds.union bounds }

/-- Propagate bounds and order up the path. -/
def propagate (bounds : Bounds U) (order : Nat) :
    List (Node U) → List Nat → Option Nat → Run (List (Node U))
  | nodes, [], _ => .ok nodes
  | nodes, index :: path, updated => do
      let node ← getIndex nodes index
      let node ← updateNode node bounds order updated
      propagate bounds order (nodes.set index node) path (some index)

abbrev leafNode (bounds : Bounds U) (order : Nat) : Node U :=
  ⟨bounds, order, .leaf order⟩

/-- The new nodes and root, and the index of the new leaf. -/
def insertLeaf (tree : BoundsTree U) (bounds : Bounds U) (order : Nat) :
    Run (BoundsTree U × Nat) := do
  let newLeaf := tree.nodes.length
  let nodes := tree.nodes ++ [leafNode bounds order]
  match tree.root with
  | none => .ok (⟨nodes, some newLeaf, tree.maxLeaf⟩, newLeaf)
  | some root => do
      let rootNode ← getIndex nodes root
      match rootNode.kind with
      | .leaf _ =>
          let newRoot := nodes.length
          let nodes := nodes ++ [pairNode newLeaf bounds order root rootNode]
          .ok (⟨nodes, some newRoot, tree.maxLeaf⟩, newLeaf)
      | .internal _ => do
          let (nodes, path) ← loop .loopBound (descendBody nodes newLeaf bounds order)
            nodes.length ([], root)
          let nodes ← propagate bounds order nodes path none
          .ok (⟨nodes, some root, tree.maxLeaf⟩, newLeaf)

def insert (tree : BoundsTree U) (newBounds : Bounds U) : Run (BoundsTree U × Nat) := do
  let maxIntersecting ← tree.findMaxOrdering newBounds
  let ordering := maxIntersecting + 1
  let (tree, newLeaf) ← tree.insertLeaf newBounds ordering
  match tree.maxLeaf with
  | none => .ok ({ tree with maxLeaf := some newLeaf }, ordering)
  | some old => do
      let oldNode ← getIndex tree.nodes old
      if oldNode.maxOrder < ordering then .ok ({ tree with maxLeaf := some newLeaf }, ordering)
      else .ok (tree, ordering)

end BoundsTree

end Gpui

/-! # BoundsTree: the tree in the vector, and the search

    `Subtree nodes i idxs es` says that the nodes reached from `i` form a tree
    over the entries `es`: every box covers what is below it, every `max_order` is
    the maximum below it and stands at the last child.  `idxs` are the nodes of
    the tree; when they are pairwise different, a change outside of them, or
    inside of one child, leaves the rest alone. -/

namespace Gpui

open Exec (loop)

namespace BoundsTree

variable {U : Type} [AddCommGroup U] [LinearOrder U]

/-- Inserted bounds and the order they were given. -/
abbrev Entry (U : Type) := Bounds U × Nat

theorem mem_sum_map {α β : Type} {f : α → Multiset β} {l : List α} {x : β} :
    x ∈ (l.map f).sum ↔ ∃ a ∈ l, x ∈ f a := by
  induction l with
  | nil => simp
  | cons a l ih => simp [ih]

/-! ## The tree below an index -/

inductive Subtree (nodes : List (Node U)) : Nat → Multiset Nat → Multiset (Entry U) → Prop where
  | leaf {i : Nat} {b : Bounds U} {o : Nat} (node : nodes[i]? = some ⟨b, o, .leaf o⟩) :
      Subtree nodes i {i} {(b, o)}
  | internal {i : Nat} {b : Bounds U} {m : Nat} {cs : List Nat} {f : Nat → Multiset Nat}
      {g : Nat → Multiset (Entry U)} (node : nodes[i]? = some ⟨b, m, .internal cs⟩)
      (children : ∀ c ∈ cs, Subtree nodes c (f c) (g c))
      (length : 2 ≤ cs.length ∧ cs.length ≤ maxChildren)
      (cover : ∀ e ∈ (cs.map g).sum, e.1.Inside b ∧ e.2 ≤ m)
      (last : ∃ c child, cs.getLast? = some c ∧ nodes[c]? = some child ∧ child.maxOrder = m) :
      Subtree nodes i (i ::ₘ (cs.map f).sum) (cs.map g).sum

variable {nodes nodes' : List (Node U)} {i : Nat} {idxs : Multiset Nat} {es : Multiset (Entry U)}

section

variable (h : Subtree nodes i idxs es)
include h

theorem Subtree.mem_self : i ∈ idxs := by
  cases h with
  | leaf node => simp
  | internal node children length cover last => simp

/-- Only the nodes of the tree matter. -/
theorem Subtree.congr (hsame : ∀ j ∈ idxs, nodes'[j]? = nodes[j]?) : Subtree nodes' i idxs es := by
  induction h with
  | leaf node => exact .leaf (by rw [hsame _ (by simp), node])
  | @internal i b m cs f g node children length cover last ih =>
    have hchild : ∀ c ∈ cs, ∀ j ∈ f c, nodes'[j]? = nodes[j]? := by
      intro c hc j hj
      exact hsame j (Multiset.mem_cons_of_mem (mem_sum_map.mpr ⟨c, hc, hj⟩))
    apply Subtree.internal (by rw [hsame _ (by simp), node])
      (fun c hc => ih c hc (hchild c hc)) length cover
    obtain ⟨c, child, hlast, hget, hmax⟩ := last
    have hc : c ∈ cs := List.mem_of_getLast? hlast
    exact ⟨c, child, hlast, by rw [hchild c hc c (children c hc).mem_self, hget], hmax⟩

theorem Subtree.lt_length : ∀ j ∈ idxs, j < nodes.length := by
  induction h with
  | leaf node =>
    intro j hj
    rw [Multiset.mem_singleton] at hj
    rw [hj]
    exact (List.getElem?_eq_some_iff.mp node).1
  | internal node children length cover last ih =>
    intro j hj
    rcases Multiset.mem_cons.mp hj with rfl | hj
    · exact (List.getElem?_eq_some_iff.mp node).1
    · obtain ⟨c, hc, hj⟩ := mem_sum_map.mp hj
      exact ih c hc j hj

/-- The root of a tree covers its entries, and its order is the largest of theirs. -/
theorem Subtree.exists_node :
    ∃ node, nodes[i]? = some node ∧
      (∀ e ∈ es, e.1.Inside node.bounds ∧ e.2 ≤ node.maxOrder) ∧
      ∃ e ∈ es, e.2 = node.maxOrder := by
  induction h with
  | leaf node =>
    refine ⟨_, node, ?_, _, Multiset.mem_singleton_self _, rfl⟩
    intro e he
    rw [Multiset.mem_singleton] at he
    rw [he]
    exact ⟨Bounds.Inside.refl _, Nat.le_refl _⟩
  | internal node children length cover last ih =>
    refine ⟨_, node, cover, ?_⟩
    obtain ⟨c, child, hlast, hget, hmax⟩ := last
    have hc := List.mem_of_getLast? hlast
    obtain ⟨child', hget', -, e, he, hmax'⟩ := ih c hc
    rw [hget] at hget'
    cases hget'
    exact ⟨e, mem_sum_map.mpr ⟨c, hc, he⟩, hmax'.trans hmax⟩

end

/-! ## The search -/

/-- The largest order among the entries that meet the query, or zero. -/
def maxOrder (query : Bounds U) (es : Multiset (Entry U)) : Nat :=
  ((es.filter (fun e => query.intersects e.1 = true)).map Prod.snd).sup

theorem maxOrder_add (query : Bounds U) (s t : Multiset (Entry U)) :
    maxOrder query (s + t) = max (maxOrder query s) (maxOrder query t) := by
  rw [maxOrder, Multiset.filter_add, Multiset.map_add, Multiset.sup_add]
  rfl

variable {query : Bounds U} {f : Nat → Multiset Nat} {g : Nat → Multiset (Entry U)}

theorem maxOrder_le {n : Nat} (h : ∀ e ∈ es, query.intersects e.1 = true → e.2 ≤ n) :
    maxOrder query es ≤ n := by
  apply Multiset.sup_le.mpr
  intro o ho
  obtain ⟨e, he, rfl⟩ := Multiset.mem_map.mp ho
  obtain ⟨he, hmeets⟩ := Multiset.mem_filter.mp he
  exact h e he hmeets

theorem le_maxOrder {e : Entry U} (he : e ∈ es) (hmeets : query.intersects e.1 = true) :
    e.2 ≤ maxOrder query es :=
  Multiset.le_sup (Multiset.mem_map_of_mem _ (Multiset.mem_filter.mpr ⟨he, hmeets⟩))

/-- Leaving out the children that cannot improve on `found` changes nothing. -/
theorem liveChildren_spec {cs : List Nat} (hcs : ∀ c ∈ cs, Subtree nodes c (f c) (g c))
    (query : Bounds U) (found : Nat) :
    ∃ live, liveChildren nodes found cs = .ok live ∧ (∀ c ∈ live, c ∈ cs) ∧
      (live.map f).sum.card ≤ (cs.map f).sum.card ∧
      max found (maxOrder query (live.map g).sum) =
        max found (maxOrder query (cs.map g).sum) := by
  induction cs with
  | nil => exact ⟨[], rfl, by simp, by simp, rfl⟩
  | cons c cs ih =>
    obtain ⟨live, hlive, hmem, hcard, hmax⟩ := ih (fun c hc => hcs c (List.mem_cons_of_mem _ hc))
    obtain ⟨node, hget, hcover, -⟩ := (hcs c (List.mem_cons_self ..)).exists_node
    refine ⟨if found < node.maxOrder then c :: live else live, ?_, ?_, ?_, ?_⟩
    · rw [liveChildren, getIndex_eq_ok hget, hlive]
      rfl
    · intro a ha
      split at ha
      · rcases List.mem_cons.mp ha with rfl | ha
        · exact List.mem_cons_self ..
        · exact List.mem_cons_of_mem _ (hmem a ha)
      · exact List.mem_cons_of_mem _ (hmem a ha)
    · split <;> simp <;> omega
    · split
      · simp only [List.map_cons, List.sum_cons, maxOrder_add]
        omega
      · next hle =>
        have hdead : maxOrder query (g c) ≤ found :=
          maxOrder_le (fun e he _ => (hcover e he).2.trans (not_lt.mp hle))
        simp only [List.map_cons, List.sum_cons, maxOrder_add]
        omega

variable {query : Bounds U}

/-- The search is through with the top of the stack: it has used up at most as
    many turns as the tree has nodes, and the best order takes in its entries. -/
def Searched (nodes : List (Node U)) (query : Bounds U) (tops : List Nat) (size : Nat)
    (es : Multiset (Entry U)) : Prop :=
  ∀ stack found, ∃ used ≤ size, ∀ n,
    loop .loopBound (searchBody nodes query) (used + n) (tops ++ stack, found) =
      loop .loopBound (searchBody nodes query) n (stack, max found (maxOrder query es))

theorem Searched.nil : Searched nodes query [] 0 0 := by
  intro stack found
  exact ⟨0, Nat.le_refl _, fun n => by simp [maxOrder]⟩

theorem Searched.append {tops tops' : List Nat} {size size' : Nat} {es' : Multiset (Entry U)}
    (h : Searched nodes query tops size es) (h' : Searched nodes query tops' size' es') :
    Searched nodes query (tops ++ tops') (size + size') (es + es') := by
  intro stack found
  obtain ⟨used, hused, hrun⟩ := h (tops' ++ stack) found
  obtain ⟨used', hused', hrun'⟩ := h' stack (max found (maxOrder query es))
  refine ⟨used + used', by omega, fun n => ?_⟩
  rw [List.append_assoc, Nat.add_assoc, hrun, hrun', maxOrder_add, Nat.max_assoc]

theorem Searched.list {l : List Nat} (h : ∀ c ∈ l, Searched nodes query [c] (f c).card (g c)) :
    Searched nodes query l (l.map f).sum.card (l.map g).sum := by
  induction l with
  | nil => exact Searched.nil
  | cons c l ih =>
    have hcons := (h c (List.mem_cons_self ..)).append
      (ih (fun a ha => h a (List.mem_cons_of_mem _ ha)))
    simpa using hcons

/-- A node is skipped when its entries cannot change the best order. -/
theorem search_skip {found k : Nat} {stack : List Nat} {node : Node U}
    (hget : nodes[i]? = some node)
    (hskip : node.maxOrder ≤ found ∨ query.intersects node.bounds = false) :
    loop .loopBound (searchBody nodes query) (k + 1) (i :: stack, found) =
      loop .loopBound (searchBody nodes query) k (stack, found) := by
  rw [loop]
  simp only [searchBody, getIndex_eq_ok hget, Exec.ok_bind]
  by_cases hle : node.maxOrder ≤ found
  · rw [if_pos hle]
  · have hmiss := hskip.resolve_left hle
    rw [if_neg hle, hmiss]
    rfl

/-- **The pruned search below a node.**  Neither pruning changes the answer. -/
theorem Subtree.searched (h : Subtree nodes i idxs es) (query : Bounds U) :
    Searched nodes query [i] idxs.card es := by
  induction h with
  | @leaf i b o node =>
    intro stack found
    refine ⟨1, by simp, fun n => ?_⟩
    rw [Nat.add_comm, List.singleton_append]
    by_cases hskip : o ≤ found ∨ query.intersects b = false
    · have hbest : maxOrder query {(b, o)} ≤ found := by
        apply maxOrder_le
        intro e he hmeets
        rw [Multiset.mem_singleton] at he
        rw [he] at hmeets ⊢
        exact hskip.resolve_right (by simp [hmeets])
      rw [search_skip node hskip, Nat.max_eq_left hbest]
    · rw [not_or, Bool.not_eq_false] at hskip
      obtain ⟨hlt, hmeets⟩ := hskip
      have hbest : maxOrder query {(b, o)} = o := by
        simp [maxOrder, Multiset.filter_singleton, hmeets]
      rw [loop]
      simp [searchBody, getIndex_eq_ok node, hlt, hmeets, hbest]
  | @internal i b m cs f g node children length cover last ih =>
    intro stack found
    by_cases hskip : m ≤ found ∨ query.intersects b = false
    · refine ⟨1, by simp, fun n => ?_⟩
      have hbest : maxOrder query (cs.map g).sum ≤ found := by
        apply maxOrder_le
        intro e he hmeets
        rcases hskip with hle | hmiss
        · exact (cover e he).2.trans hle
        · -- what meets the entry would meet the box
          rw [Bounds.intersects_of_inside hmeets (cover e he).1] at hmiss
          cases hmiss
      rw [Nat.add_comm, List.singleton_append, search_skip node hskip, Nat.max_eq_left hbest]
    · rw [not_or, Bool.not_eq_false] at hskip
      obtain ⟨hlt, hmeets⟩ := hskip
      obtain ⟨live, hlive, hmem, hcard, hmax⟩ := liveChildren_spec children query found
      have hlist : Searched nodes query live.reverse (live.map f).sum.card (live.map g).sum := by
        have hrev := Searched.list (f := f) (g := g) (l := live.reverse)
          (fun c hc => ih c (hmem c (List.mem_reverse.mp hc)))
        rwa [List.map_reverse, List.sum_reverse, List.map_reverse, List.sum_reverse] at hrev
      obtain ⟨used, hused, hrun⟩ := hlist stack found
      refine ⟨used + 1, by rw [Multiset.card_cons]; omega, fun n => ?_⟩
      have hturn : loop .loopBound (searchBody nodes query) (used + n + 1) ([i] ++ stack, found) =
          loop .loopBound (searchBody nodes query) (used + n) (live.reverse ++ stack, found) := by
        rw [loop]
        simp [searchBody, getIndex_eq_ok node, hlt, hmeets, hlive]
      rw [show used + 1 + n = used + n + 1 by omega, hturn, hrun, hmax]

end BoundsTree

end Gpui
