import Gpui.Lib.RootedTree
import Gpui.Scene.BoundsTreeInsert

/-! # BoundsTree: the order of an inserted rectangle

    A tree holds the entries inserted since it was last cleared.  Searching it
    gives the brute-force maximum over these, so every insertion is given one more
    than the largest order below it. -/

namespace Gpui

open List

open Exec (loop ok_bind)

namespace BoundsTree

variable {U : Type} [AddCommGroup U] [LinearOrder U]

/-! ## The invariant between operations -/

/-- The nodes of the vector form one tree over the entries, and `max_leaf` is a
    leaf of the largest order. -/
inductive Holds : BoundsTree U → Multiset (Entry U) → Prop where
  | empty : Holds empty 0
  | tree {nodes : List (Node U)} {root maxLeaf : Nat} {es : Multiset (Entry U)} {b : Bounds U}
      {o : Nat} (subtree : Subtree nodes root (Multiset.range nodes.length) es)
      (leaf : nodes[maxLeaf]? = some ⟨b, o, .leaf o⟩) (mem : (b, o) ∈ es)
      (max : ∀ e ∈ es, e.2 ≤ o) : Holds ⟨nodes, some root, some maxLeaf⟩ es

variable {tree : BoundsTree U} {es : Multiset (Entry U)}

/-- **The search.**  The fast path and the search find the largest order among the
    entries that meet the query. -/
theorem findMaxOrdering_eq (h : Holds tree es) (query : Bounds U) :
    tree.findMaxOrdering query = .ok (maxOrder query es) := by
  cases h with
  | empty => rfl
  | @tree nodes root maxLeaf es b o subtree leaf mem max =>
    simp only [findMaxOrdering, getIndex_eq_ok leaf, ok_bind]
    by_cases hmeets : query.intersects b = true
    · -- the leaf of the largest order meets the query
      rw [if_pos hmeets]
      congr 1
      exact Nat.le_antisymm (le_maxOrder mem hmeets) (maxOrder_le (fun e he _ => max e he))
    · rw [if_neg hmeets]
      obtain ⟨used, hused, hrun⟩ := subtree.searched query [] 0
      rw [Multiset.card_range] at hused
      have hturns := hrun (nodes.length - used + 1)
      rw [show used + (nodes.length - used + 1) = nodes.length + 1 by omega] at hturns
      rw [show [root] = [root] ++ [] from rfl, hturns, Nat.zero_max]
      rfl

theorem range_add_fresh (n n' : Nat) (h : n + 1 ≤ n') :
    Multiset.range n + (n ::ₘ fresh (n + 1) n') = Multiset.range n' := by
  have hlist : List.range n' = List.range n ++ (n :: List.range' (n + 1) (n' - (n + 1))) := by
    rw [← range'_succ, range_eq_range', range_eq_range']
    have happend := range'_append_1 (s := 0) (m := n) (n := n' - (n + 1) + 1)
    rw [Nat.zero_add] at happend
    rw [happend]
    congr 1
    omega
  rw [Multiset.range, Multiset.range, hlist, ← Multiset.coe_add, fresh, Multiset.cons_coe]

theorem insertLeaf_spec (h : Holds tree es) (bounds : Bounds U) (order : Nat) :
    ∃ nodes' root', tree.insertLeaf bounds order =
        .ok (⟨nodes', some root', tree.maxLeaf⟩, tree.nodes.length) ∧
      Subtree nodes' root' (Multiset.range nodes'.length) (es + {(bounds, order)}) ∧
      nodes'[tree.nodes.length]? = some ⟨bounds, order, .leaf order⟩ ∧
      ∀ (j : Nat) (node : Node U) (o : Nat), tree.nodes[j]? = some node → node.kind = .leaf o →
        nodes'[j]? = some node := by
  cases h with
  | empty =>
    refine ⟨[leafNode bounds order], 0, rfl, ?_, rfl, by simp [BoundsTree.empty]⟩
    have hleaf : Subtree [leafNode bounds order] 0 {0} {(bounds, order)} := Subtree.leaf rfl
    exact hleaf
  | @tree nodes root maxLeaf es b o subtree leaf mem max =>
    -- the new leaf stands at the end of the vector
    have hnew : (nodes ++ [leafNode bounds order])[nodes.length]? =
        some ⟨bounds, order, .leaf order⟩ := getElem?_concat_length
    have hold : ∀ (j : Nat) (node : Node U), nodes[j]? = some node →
        (nodes ++ [leafNode bounds order])[j]? = some node := by
      intro j node hnode
      rw [List.getElem?_append_left (List.getElem?_eq_some_iff.mp hnode).1, hnode]
    have hlength : (nodes ++ [leafNode bounds order]).length = nodes.length + 1 := by simp
    have hsub : Subtree (nodes ++ [leafNode bounds order]) root
        (Multiset.range nodes.length) es :=
      subtree.congr (fun j hj => getElem?_append_left (Multiset.mem_range.mp hj))
    simp only [insertLeaf]
    generalize nodes ++ [leafNode bounds order] = nodes₀ at hnew hold hlength hsub ⊢
    obtain ⟨⟨br, or, kind⟩, hroot, -⟩ := hsub.exists_node
    simp only [getIndex_eq_ok hroot, ok_bind]
    have hrootlt : root < nodes.length := Multiset.mem_range.mp subtree.mem_self
    cases kind with
    | leaf or' =>
      obtain ⟨rfl, hidxs, hes⟩ := hsub.eq_leaf hroot
      refine ⟨_, nodes₀.length, rfl, ?_, ?_, ?_⟩
      · -- a new root over the old one and the new leaf
        have hpair : Subtree (nodes₀ ++ [pairNode nodes.length bounds order root
            ⟨br, or, .leaf or⟩]) nodes₀.length _ _ := Subtree.of_pair
          getElem?_concat_length
          (by rw [getElem?_append_left (by omega), hroot])
          (by rw [getElem?_append_left (by omega), hnew])
          (by omega)
        rw [length_append, length_singleton, hlength, hes]
        rw [hlength] at hpair
        have hrange : (nodes.length + 1) ::ₘ ({root} + {nodes.length}) =
            Multiset.range (nodes.length + 1 + 1) := by
          have hswap : ({root} : Multiset Nat) + {nodes.length} = nodes.length ::ₘ {root} := by
            rw [add_comm, Multiset.singleton_add]
          rw [Multiset.range_succ, Multiset.range_succ, hidxs, hswap]
        rw [← hrange]
        exact hpair
      · rw [getElem?_append_left (by omega), hnew]
      · intro j node o' hnode _
        have hj := hold j node hnode
        rw [List.getElem?_append_left (List.getElem?_eq_some_iff.mp hj).1, hj]
    | internal children =>
      obtain ⟨nodes₁, nodes₂, down, hdescend, hpropagate, hgrown⟩ :=
        hsub.inserts (Multiset.nodup_range _) ⟨br, or, children, hroot⟩ hnew
          (by simp [Multiset.mem_range])
      have hup := hpropagate []
      rw [append_nil] at hup
      refine ⟨nodes₂, root, ?_, ?_, hgrown.leaf _ _ _ hnew rfl, ?_⟩
      · have hrun := hdescend nodes₀.length [] (by rw [Multiset.card_range]; omega)
        rw [append_nil] at hrun
        simp only [hrun, ok_bind, hup]
        rfl
      · have htree := hgrown.subtree
        have hle := hgrown.length_le
        rw [hlength] at htree hle
        rwa [range_add_fresh _ _ hle] at htree
      · intro j node o' hnode hkind
        exact hgrown.leaf j node o' (hold j node hnode) hkind

/-- **Step lemma.**  An insertion returns one more than the largest order that the
    new bounds meet, and the tree then holds the new entry too. -/
theorem insert_spec (h : Holds tree es) (bounds : Bounds U) :
    ∃ tree', tree.insert bounds = .ok (tree', maxOrder bounds es + 1) ∧
      Holds tree' (es + {(bounds, maxOrder bounds es + 1)}) := by
  obtain ⟨nodes', root', hinsert, hsub, hnew, hleaf⟩ :=
    insertLeaf_spec h bounds (maxOrder bounds es + 1)
  simp only [insert, findMaxOrdering_eq h, hinsert, ok_bind]
  have hnewmem : (bounds, maxOrder bounds es + 1) ∈ es + {(bounds, maxOrder bounds es + 1)} := by
    simp
  cases h with
  | empty =>
    refine ⟨_, rfl, Holds.tree hsub hnew hnewmem ?_⟩
    intro e he
    rw [zero_add, Multiset.mem_singleton] at he
    rw [he]
  | @tree nodes root maxLeaf es b o subtree leaf mem max =>
    have hmax := hleaf maxLeaf _ o leaf rfl
    simp only [getIndex_eq_ok hmax, ok_bind]
    by_cases hlt : o < maxOrder bounds es + 1
    · rw [if_pos hlt]
      refine ⟨_, rfl, Holds.tree hsub hnew hnewmem ?_⟩
      intro e he
      rcases Multiset.mem_add.mp he with he | he
      · exact (max e he).trans hlt.le
      · rw [Multiset.mem_singleton.mp he]
    · rw [if_neg hlt]
      refine ⟨_, rfl, Holds.tree hsub hmax (Multiset.mem_add.mpr (Or.inl mem)) ?_⟩
      intro e he
      rcases Multiset.mem_add.mp he with he | he
      · exact max e he
      · rw [Multiset.mem_singleton.mp he]
        exact not_lt.mp hlt

/-! ## The shape of the tree -/

/-- The children of a node, none of a leaf. -/
def childrenOf (nodes : List (Node U)) (i : Nat) : List Nat :=
  match nodes[i]? with
  | some ⟨_, _, .internal children⟩ => children
  | _ => []

/-- The entry of a leaf. -/
def leafEntry (nodes : List (Node U)) (i : Nat) : Option (Entry U) :=
  match nodes[i]? with
  | some ⟨bounds, _, .leaf order⟩ => some (bounds, order)
  | _ => none

/-- An internal node has as many children as it may have, and one of its own order at the end. -/
def MaxLast (nodes : List (Node U)) (i : Nat) : Prop :=
  ∀ b m cs, nodes[i]? = some ⟨b, m, .internal cs⟩ → (2 ≤ cs.length ∧ cs.length ≤ maxChildren) ∧
    ∃ c child, cs.getLast? = some c ∧ nodes[c]? = some child ∧ child.maxOrder = m

/-- The nodes of the vector are one tree over the leaves that were inserted. -/
structure WellShaped (tree : BoundsTree U) (inserted : List (Entry U)) : Prop where
  maxLast : ∀ i, MaxLast tree.nodes i
  once    : ∀ i, (childrenOf tree.nodes i).Nodup
  parent  : ∀ i j c, c ∈ childrenOf tree.nodes i → c ∈ childrenOf tree.nodes j → i = j
  reached : ∀ i < tree.nodes.length, ∃ root, tree.root = some root ∧
    Relation.ReflTransGen (fun parent c => c ∈ childrenOf tree.nodes parent) root i
  leaves  : ((List.range tree.nodes.length).filterMap (leafEntry tree.nodes)).Perm inserted

section Shape

variable {nodes : List (Node U)} {i : Nat} {idxs : Multiset Nat} {es : Multiset (Entry U)}

section

variable (h : Subtree nodes i idxs es)
include h

/-- Every node of a tree but its root is listed as a child once. -/
theorem Subtree.idxs_eq :
    idxs = i ::ₘ idxs.bind (fun j => (childrenOf nodes j : Multiset Nat)) := by
  induction h with
  | leaf node => simp [childrenOf, node]
  | @internal i b m cs f g node children length cover last ih =>
    rw [Multiset.cons_bind, show childrenOf nodes i = cs by rw [childrenOf, node]]
    congr 1
    -- induction on the children
    clear node children length cover last
    induction cs with
    | nil => simp
    | cons c cs ihcs =>
      have hrest := ihcs (fun c hc => ih c (mem_cons_of_mem _ hc))
      have hfirst := ih c mem_cons_self
      rw [map_cons, sum_cons, Multiset.add_bind, ← Multiset.cons_coe,
        ← Multiset.singleton_add, add_add_add_comm, Multiset.singleton_add, ← hrest, ← hfirst]

theorem Subtree.leaves : idxs.filterMap (leafEntry nodes) = es := by
  induction h with
  | @leaf i b o node =>
    rw [← Multiset.cons_zero, Multiset.filterMap_cons_some _ _ _ (by rw [leafEntry, node])]
    simp
  | @internal i b m cs f g node children length cover last ih =>
    rw [Multiset.filterMap_cons_none _ _ (by rw [leafEntry, node])]
    clear node children length cover last
    induction cs with
    | nil => simp
    | cons c cs ihcs =>
      rw [map_cons, sum_cons, Multiset.filterMap_add, ih c mem_cons_self,
        ihcs (fun c hc => ih c (mem_cons_of_mem _ hc)), map_cons, sum_cons]

theorem Subtree.maxLast : ∀ j ∈ idxs, MaxLast nodes j := by
  induction h with
  | leaf node =>
    intro j hj b m cs hget
    rw [Multiset.mem_singleton.mp hj, node] at hget
    cases hget
  | internal node _ length _ last ih =>
    intro j hj
    rcases Multiset.mem_cons.mp hj with rfl | hj
    · intro b m cs hget
      rw [node] at hget
      cases hget
      exact ⟨length, last⟩
    · obtain ⟨c, hc, hj⟩ := mem_sum_map.mp hj
      exact ih c hc j hj

theorem Subtree.reached : ∀ j ∈ idxs,
    Relation.ReflTransGen (fun parent c => c ∈ childrenOf nodes parent) i j := by
  induction h with
  | leaf node =>
    intro j hj
    rw [Multiset.mem_singleton.mp hj]
  | internal node _ _ _ _ ih =>
    intro j hj
    rcases Multiset.mem_cons.mp hj with rfl | hj
    · exact .refl
    · obtain ⟨c, hc, hj⟩ := mem_sum_map.mp hj
      exact .head (by rw [childrenOf, node]; exact hc) (ih c hc j hj)

end

omit [AddCommGroup U] [LinearOrder U] in
theorem lt_of_mem_childrenOf {c : Nat} (h : c ∈ childrenOf nodes i) : i < nodes.length := by
  by_contra hlt
  rw [childrenOf, getElem?_eq_none (not_lt.mp hlt)] at h
  cases h

theorem Subtree.isTree (h : Subtree nodes i (Multiset.range nodes.length) es) :
    RootedTree.IsTree id (childrenOf nodes) i (List.range nodes.length) where
  keys := by
    rw [map_id]
    exact nodup_range
  listed := by
    rw [map_id, ← Multiset.coe_eq_coe, ← Multiset.cons_coe, ← Multiset.coe_bind]
    exact h.idxs_eq.symm
  reachable := by
    intro j hj
    rw [map_id, mem_range] at hj
    apply Relation.ReflTransGen.mono _ _ _ (h.reached j (Multiset.mem_range.mpr hj))
    intro parent c hc
    exact ⟨parent, mem_range.mpr (lt_of_mem_childrenOf hc), rfl, hc⟩

end Shape

variable {inserted : List (Entry U)}

theorem Holds.wellShaped (h : Holds tree inserted) : WellShaped tree inserted := by
  generalize hes : (inserted : Multiset (Entry U)) = es at h
  cases h with
  | empty =>
    rw [Multiset.coe_eq_zero] at hes
    rw [hes]
    refine ⟨fun i b m cs hget => ?_, fun i => ?_, fun i j c hc => ?_, fun i hi => ?_, ?_⟩
    · cases hget
    · exact nodup_nil
    · cases hc
    · cases hi
    · exact List.Perm.refl _
  | @tree nodes root maxLeaf es b o subtree leaf mem max =>
    have htree := subtree.isTree
    refine ⟨fun i b m cs hget => ?_, fun i => ?_, fun i j c hi hj => ?_, fun i hi => ?_, ?_⟩
    · have hlt := (List.getElem?_eq_some_iff.mp hget).1
      exact subtree.maxLast i (Multiset.mem_range.mpr hlt) b m cs hget
    · by_cases hi : i < nodes.length
      · have hnodup := (nodup_cons.mp htree.nodup_children).2
        exact (nodup_flatMap.mp hnodup).1 i (mem_range.mpr hi)
      · rw [childrenOf, getElem?_eq_none (not_lt.mp hi)]
        exact nodup_nil
    · exact htree.parent_unique ⟨i, mem_range.mpr (lt_of_mem_childrenOf hi), rfl, hi⟩
        ⟨j, mem_range.mpr (lt_of_mem_childrenOf hj), rfl, hj⟩
    · exact ⟨root, rfl, subtree.reached i (Multiset.mem_range.mpr hi)⟩
    · have hleaves := subtree.leaves
      rw [← hes, Multiset.range, Multiset.filterMap_coe, Multiset.coe_eq_coe] at hleaves
      exact hleaves

/-! ## Runs -/

/-- The operations on a tree. -/
inductive Op (U : Type) where
  | clear
  | insert (bounds : Bounds U)

/-- The tree after some operations, and the orders the insertions returned. -/
def run : BoundsTree U → List (Op U) → Run (BoundsTree U × List Nat)
  | tree, [] => .ok (tree, [])
  | tree, .clear :: ops => run tree.clear ops
  | tree, .insert bounds :: ops => do
      let (tree, order) ← tree.insert bounds
      let (tree, orders) ← run tree ops
      .ok (tree, order :: orders)

/-- One more than the largest order among the inserted bounds that intersect the
    new ones. -/
def bruteForceOrder (inserted : List (Entry U)) (bounds : Bounds U) : Nat :=
  ((inserted.filter (fun e => e.1.intersects bounds)).map Prod.snd).foldr max 0 + 1

/-- The orders of the insertions, from the bounds inserted since the last clear. -/
def bruteForceOrders : List (Entry U) → List (Op U) → List Nat
  | _, [] => []
  | _, .clear :: ops => bruteForceOrders [] ops
  | inserted, .insert bounds :: ops =>
      bruteForceOrder inserted bounds ::
        bruteForceOrders ((bounds, bruteForceOrder inserted bounds) :: inserted) ops

/-- The bounds inserted since the last clear with their orders, the last one first. -/
def liveEntries : List (Entry U) → List (Op U) → List (Entry U)
  | inserted, [] => inserted
  | _, .clear :: ops => liveEntries [] ops
  | inserted, .insert bounds :: ops =>
      liveEntries ((bounds, bruteForceOrder inserted bounds) :: inserted) ops

theorem maxOrder_coe (bounds : Bounds U) (inserted : List (Entry U)) :
    maxOrder bounds (inserted : Multiset (Entry U)) + 1 = bruteForceOrder inserted bounds := by
  rw [maxOrder, Multiset.filter_coe, Multiset.map_coe, Multiset.sup_coe, bruteForceOrder]
  simp only [Bounds.intersects_comm bounds, Bool.decide_eq_true]
  rfl

/-- **Run lemma.**  From a tree over the inserted bounds, every operation returns
    what the brute-force search gives. -/
theorem run_holds (ops : List (Op U)) (h : Holds tree inserted) :
    ∃ tree', run tree ops = .ok (tree', bruteForceOrders inserted ops) ∧
      Holds tree' (liveEntries inserted ops) := by
  induction ops generalizing tree inserted with
  | nil => exact ⟨tree, rfl, h⟩
  | cons op ops ih =>
    cases op with
    | clear => exact ih Holds.empty
    | insert bounds =>
      obtain ⟨tree', hinsert, hholds⟩ := insert_spec h bounds
      have hcons : (inserted : Multiset (Entry U)) + {(bounds, maxOrder bounds inserted + 1)} =
          ((bounds, bruteForceOrder inserted bounds) :: inserted : List (Entry U)) := by
        rw [maxOrder_coe, ← Multiset.cons_coe, add_comm, Multiset.singleton_add]
      rw [hcons] at hholds
      obtain ⟨tree'', hrun, hlive⟩ := ih hholds
      refine ⟨tree'', ?_, hlive⟩
      simp only [run, hinsert, ok_bind, hrun, maxOrder_coe]
      rfl

theorem run_eq (ops : List (Op U)) (h : Holds tree inserted) :
    ∃ tree', run tree ops = .ok (tree', bruteForceOrders inserted ops) := by
  obtain ⟨tree', hrun, -⟩ := run_holds ops h
  exact ⟨tree', hrun⟩

/-- **Every insertion returns the brute-force order**, whatever operations went
    before it: one more than the largest order among the bounds inserted since the
    last clear that intersect the new ones. -/
theorem run_insert_order (ops : List (Op U)) :
    ∃ tree, run (empty : BoundsTree U) ops = .ok (tree, bruteForceOrders [] ops) :=
  run_eq ops Holds.empty

/-- **The tree after any operations is well shaped**, over the bounds inserted since the last
    clear. -/
theorem run_wellShaped (ops : List (Op U)) :
    ∃ tree orders, run (empty : BoundsTree U) ops = .ok (tree, orders) ∧
      WellShaped tree (liveEntries [] ops) := by
  obtain ⟨tree, hrun, hholds⟩ := run_holds ops Holds.empty
  exact ⟨tree, _, hrun, hholds.wellShaped⟩

end BoundsTree

end Gpui
