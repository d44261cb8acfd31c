import Gpui.Scene.BoundsTree

/-! # BoundsTree: inserting a leaf

    The descent changes the nodes at its end, and the way back up repairs the
    boxes, the orders and the last children of the path.  The induction is on the
    tree: below each node the two together turn a tree over `es` into one over
    `es` and the new entry (`Subtree.insert`). -/

namespace Gpui

open List

open Exec (loop ok_bind)

namespace BoundsTree

variable {U : Type} [AddCommGroup U] [LinearOrder U]

/-! ## Arrays of children -/

theorem swap_spec (children : List Nat) {i j : Nat} (hi : i < children.length)
    (hj : j < children.length) :
    ∃ children', NodeChildren.swap children i j = .ok children' ∧ children'.Perm children ∧
      children'[j]? = children[i]? := by
  refine ⟨_, ?_, set_set_perm hi hj, ?_⟩
  · rw [NodeChildren.swap, getIndex_eq_ok (getElem?_eq_getElem hi), ok_bind,
      getIndex_eq_ok (getElem?_eq_getElem hj)]
    rfl
  · rw [getElem?_set_self (by simpa using hj), getElem?_eq_getElem hi]

variable {nodes : List (Node U)} {b : Bounds U} {f : Nat → Multiset Nat}
  {g : Nat → Multiset (Entry U)} {G : Multiset (Entry U)}

/-- The best child is one of the children, at the position returned with it. -/
theorem bestOf_spec (bounds : Bounds U) {all rest : List Nat}
    (hget : ∀ c ∈ rest, ∃ node, nodes[c]? = some node) :
    ∀ (before : List Nat) (best pos : Nat) (cost : U), all = before ++ rest →
      (∃ l r, all = l ++ best :: r ∧ pos = l.length) →
      ∃ best' l r, bestOf nodes bounds rest before.length best pos cost = .ok (best', l.length) ∧
        all = l ++ best' :: r := by
  induction rest with
  | nil =>
    intro before best pos cost _ ⟨l, r, hall, hpos⟩
    exact ⟨best, l, r, by rw [bestOf, hpos], hall⟩
  | cons c rest ih =>
    intro before best pos cost hall hbest
    obtain ⟨node, hnode⟩ := hget c (mem_cons_self ..)
    have hrest : ∀ a ∈ rest, ∃ node, nodes[a]? = some node :=
      fun a ha => hget a (mem_cons_of_mem _ ha)
    have hall' : all = (before ++ [c]) ++ rest := by simpa using hall
    have hlength : (before ++ [c]).length = before.length + 1 := by simp
    simp only [bestOf, getIndex_eq_ok hnode, ok_bind]
    rw [← hlength]
    by_cases hcost : (bounds.union node.bounds).halfPerimeter < cost
    · simp only [if_pos hcost]
      exact ih hrest _ _ _ _ hall' ⟨before, rest, hall, rfl⟩
    · simp only [if_neg hcost]
      exact ih hrest _ _ _ _ hall' hbest

theorem bestChild_spec (bounds : Bounds U) {children : List Nat} (hne : children ≠ [])
    (hget : ∀ c ∈ children, ∃ node, nodes[c]? = some node) :
    ∃ best l r, bestChild nodes bounds children = .ok (best, l.length) ∧
      children = l ++ best :: r := by
  cases children with
  | nil => exact absurd rfl hne
  | cons c rest =>
    obtain ⟨node, hnode⟩ := hget c (mem_cons_self ..)
    obtain ⟨best, l, r, hrun, hall⟩ := bestOf_spec bounds
      (fun a ha => hget a (mem_cons_of_mem _ ha)) [c] c 0
      (bounds.union node.bounds).halfPerimeter rfl ⟨[], rest, rfl, rfl⟩
    refine ⟨best, l, r, ?_, hall⟩
    rw [bestChild, getIndex_eq_ok hnode, ok_bind]
    exact hrun

/-- On the way up a node takes the new bounds and order; when its order grows, the
    updated child goes to the end. -/
theorem updateNode_spec (b bounds : Bounds U) (m order : Nat) (cs : List Nat)
    {updated : Option Nat} (hupdated : ∀ c, updated = some c → c ∈ cs) :
    ∃ cs', updateNode ⟨b, m, .internal cs⟩ bounds order updated =
        .ok ⟨b.union bounds, max m order, .internal cs'⟩ ∧ cs'.Perm cs ∧
      ((m < order ∧ ∃ c, updated = some c ∧ cs'.getLast? = some c) ∨
        (cs' = cs ∧ (order ≤ m ∨ updated = none))) := by
  rw [updateNode]
  by_cases hlt : m < order
  · rw [if_pos hlt, Nat.max_eq_right hlt.le]
    cases updated with
    | none => exact ⟨cs, rfl, List.Perm.refl _, Or.inr ⟨rfl, Or.inr rfl⟩⟩
    | some c =>
      have hmem := hupdated c rfl
      obtain ⟨pos, hpos⟩ : ∃ pos, cs.idxOf? c = some pos :=
        Option.isSome_iff_exists.mp (isSome_idxOf?.mpr hmem)
      obtain ⟨hidx, hat, -⟩ := idxOf?_eq_some_iff.mp hpos
      have hat : cs[pos]? = some c := by rw [getElem?_eq_getElem hidx, hat]
      simp only [raiseChild, hpos]
      by_cases hlast : pos = cs.length - 1
      · -- already at the end
        rw [if_neg (by simpa using hlast)]
        refine ⟨cs, rfl, List.Perm.refl _, Or.inl ⟨hlt, c, rfl, ?_⟩⟩
        rw [getLast?_eq_getElem?, ← hlast, hat]
      · rw [if_pos hlast]
        obtain ⟨cs', hswap, hperm, hend⟩ := swap_spec cs hidx (show cs.length - 1 < cs.length by omega)
        refine ⟨cs', by rw [hswap]; rfl, hperm, Or.inl ⟨hlt, c, rfl, ?_⟩⟩
        rw [getLast?_eq_getElem?, hperm.length_eq, hend, hat]
  · rw [if_neg hlt, Nat.max_eq_left (by omega)]
    exact ⟨cs, rfl, List.Perm.refl _, Or.inr ⟨rfl, Or.inl (by omega)⟩⟩

/-- A node with room takes the new leaf, as its last child if its order is the
    largest. -/
theorem addChild_spec (nodes : List (Node U)) (newLeaf i m order : Nat) (b bounds : Bounds U)
    {cs : List Nat} (hne : cs ≠ []) (hroom : cs.length < maxChildren) :
    ∃ cs', addChild nodes newLeaf bounds order i ⟨b, m, .internal cs⟩ cs =
        .ok (nodes.set i ⟨b.union bounds, max m order, .internal cs'⟩) ∧
      cs'.Perm (cs ++ [newLeaf]) ∧
      ((order ≤ m ∧ cs'.getLast? = cs.getLast?) ∨
        (m < order ∧ cs'.getLast? = some newLeaf)) := by
  have hpos : 0 < cs.length := length_pos_iff.mpr hne
  have hlength : (cs ++ [newLeaf]).length = cs.length + 1 := by simp
  simp only [addChild, NodeChildren.push, if_pos hroom, ok_bind, hlength]
  by_cases hle : order ≤ m
  · obtain ⟨cs', hswap, hperm, hend⟩ := swap_spec (cs ++ [newLeaf])
      (show cs.length + 1 - 1 - 1 < _ by omega) (show cs.length + 1 - 1 < _ by omega)
    refine ⟨cs', by rw [if_pos hle, hswap, ok_bind], hperm, Or.inl ⟨hle, ?_⟩⟩
    rw [getLast?_eq_getElem?, hperm.length_eq, hlength, hend, getLast?_eq_getElem?,
      getElem?_append_left (by omega)]
    rfl
  · exact ⟨cs ++ [newLeaf], by rw [if_neg hle], List.Perm.refl _,
      Or.inr ⟨by omega, by simp⟩⟩

/-- In a full node the leaf `c` is replaced by a node over `c` and the new leaf. -/
theorem splitChild_spec (nodes : List (Node U)) (newLeaf i m order c : Nat)
    (b bounds : Bounds U) (l r : List Nat) (sibling : Node U) :
    ∃ cs', splitChild nodes newLeaf bounds order i ⟨b, m, .internal (l ++ c :: r)⟩ (l ++ c :: r) c
        l.length sibling =
        .ok ((nodes ++ [pairNode newLeaf bounds order c sibling]).set i ⟨b, m, .internal cs'⟩) ∧
      cs'.Perm (l ++ nodes.length :: r) ∧
      ((m < max sibling.maxOrder order ∧ cs'.getLast? = some nodes.length) ∨
        (max sibling.maxOrder order ≤ m ∧ cs' = l ++ nodes.length :: r)) := by
  have hset : (l ++ c :: r).set l.length nodes.length = l ++ nodes.length :: r := by simp
  have hlength : (l ++ c :: r).length = (l ++ nodes.length :: r).length := by simp
  simp only [splitChild, hset]
  by_cases hlt : m < max sibling.maxOrder order
  · obtain ⟨cs', hswap, hperm, hend⟩ := swap_spec (l ++ nodes.length :: r)
      (show l.length < _ by simp) (show (l ++ c :: r).length - 1 < _ by simp)
    refine ⟨cs', by rw [if_pos hlt, hswap, ok_bind], hperm, Or.inl ⟨hlt, ?_⟩⟩
    rw [getLast?_eq_getElem?, hperm.length_eq, ← hlength, hend,
      getElem?_append_right (Nat.le_refl _)]
    simp
  · exact ⟨_, by rw [if_neg hlt, ok_bind], List.Perm.refl _, Or.inr ⟨by omega, rfl⟩⟩

/-! ## Trees from their parts -/

variable {nodes nodes' : List (Node U)} {i : Nat} {idxs : Multiset Nat} {es : Multiset (Entry U)}

/-- A node over the trees of its children, one of which is singled out. -/
theorem Subtree.of_parts {m : Nat} {cs l r : List Nat} {c : Nat} {F : Multiset Nat}
    (hnode : nodes[i]? = some ⟨b, m, .internal cs⟩) (hperm : cs.Perm (l ++ c :: r))
    (hc : c ∉ l ++ r) (hothers : ∀ a ∈ l ++ r, Subtree nodes a (f a) (g a))
    (hchild : Subtree nodes c F G) (hlength : 2 ≤ cs.length ∧ cs.length ≤ maxChildren)
    (hcover : ∀ e ∈ ((l ++ r).map g).sum + G, e.1.Inside b ∧ e.2 ≤ m)
    (hlast : ∃ a child, cs.getLast? = some a ∧ nodes[a]? = some child ∧ child.maxOrder = m) :
    Subtree nodes i (i ::ₘ (((l ++ r).map f).sum + F)) (((l ++ r).map g).sum + G) := by
  -- give the singled out child its own part of the index sets
  have hsum : ∀ {β : Type} (h : Nat → Multiset β) (x : Multiset β),
      (cs.map (Function.update h c x)).sum = ((l ++ r).map h).sum + x := by
    intro β h x
    have hsame : ∀ a ∈ l ++ r, Function.update h c x a = h a := by
      intro a ha
      exact Function.update_of_ne (by rintro rfl; exact hc ha) _ _
    rw [(hperm.map _).sum_eq, map_append, map_cons, sum_append, sum_cons,
      Function.update_self, map_congr_left (fun a ha => hsame a (by simp [ha])),
      map_congr_left (l := r) (fun a ha => hsame a (by simp [ha])), map_append,
      sum_append]
    abel
  rw [← hsum, ← hsum]
  apply Subtree.internal hnode _ hlength (by rwa [hsum]) hlast
  intro a ha
  by_cases hac : a = c
  · rw [hac, Function.update_self, Function.update_self]
    exact hchild
  · rw [Function.update_of_ne hac, Function.update_of_ne hac]
    have hmem := hperm.mem_iff.mp ha
    apply hothers
    simpa [hac] using hmem

/-- An internal node over a leaf and a new leaf. -/
theorem Subtree.of_pair {b bounds : Bounds U} {sibling newLeaf o order : Nat}
    (hnode : nodes[i]? = some (pairNode newLeaf bounds order sibling ⟨b, o, .leaf o⟩))
    (hsibling : nodes[sibling]? = some ⟨b, o, .leaf o⟩)
    (hnew : nodes[newLeaf]? = some ⟨bounds, order, .leaf order⟩) (hne : newLeaf ≠ sibling) :
    Subtree nodes i (i ::ₘ ({sibling} + {newLeaf})) ({(b, o)} + {(bounds, order)}) := by
  have hpair : (pair newLeaf order sibling o).Perm ([sibling] ++ newLeaf :: []) := by
    rw [pair]
    split
    · exact List.Perm.refl _
    · exact List.Perm.swap _ _ _
  have hparts := Subtree.of_parts (f := fun _ => {sibling}) (g := fun _ => {(b, o)}) hnode hpair
    (by simpa using hne)
    (by intro a ha; rw [append_nil, mem_singleton] at ha; rw [ha]; exact .leaf hsibling)
    (.leaf hnew) (by rw [hpair.length_eq]; simp [maxChildren])
    (by
      intro e he
      simp only [append_nil, map_cons, map_nil, sum_cons, sum_nil,
        add_zero, Multiset.mem_add, Multiset.mem_singleton] at he
      rcases he with rfl | rfl
      · exact ⟨Bounds.inside_union_left _ _, le_max_left _ _⟩
      · exact ⟨Bounds.inside_union_right _ _, le_max_right _ _⟩)
    (by
      rw [pair]
      split
      · next h => exact ⟨newLeaf, _, rfl, hnew, (Nat.max_eq_right h.le).symm⟩
      · next h => exact ⟨sibling, _, rfl, hsibling, (Nat.max_eq_left (not_lt.mp h)).symm⟩)
  simpa using hparts

/-- A tree whose root is a leaf. -/
theorem Subtree.eq_leaf {m o : Nat} (h : Subtree nodes i idxs es)
    (hnode : nodes[i]? = some ⟨b, m, .leaf o⟩) : m = o ∧ idxs = {i} ∧ es = {(b, o)} := by
  cases h with
  | leaf node =>
    rw [node] at hnode
    cases hnode
    exact ⟨rfl, rfl, rfl⟩
  | internal node children length cover last =>
    rw [node] at hnode
    cases hnode

/-! ## What an insertion does below a node -/

/-- The indices of nodes appended to a vector. -/
def fresh (n n' : Nat) : Multiset Nat := (List.range' n (n' - n) : List Nat)

theorem mem_fresh {n n' j : Nat} (h : j ∈ fresh n n') : n ≤ j := by
  simp only [fresh, Multiset.mem_coe, mem_range'_1] at h
  exact h.1

/-- The tree at `i` has taken in `entry`, at the leaf `newLeaf`; nodes have been
    appended, nodes outside of the tree and leaves are as before. -/
structure Grown (nodes nodes' : List (Node U)) (i : Nat) (idxs : Multiset Nat)
    (es : Multiset (Entry U)) (entry : Entry U) (newLeaf : Nat) : Prop where
  length_le : nodes.length ≤ nodes'.length
  subtree : Subtree nodes' i (idxs + (newLeaf ::ₘ fresh nodes.length nodes'.length))
    (es + {entry})
  frame : ∀ j < nodes.length, j ∉ idxs → nodes'[j]? = nodes[j]?
  leaf : ∀ (j : Nat) (node : Node U) (o : Nat), nodes[j]? = some node → node.kind = .leaf o → nodes'[j]? = some node
  order : ∀ node, nodes[i]? = some node →
    ∃ node', nodes'[i]? = some node' ∧ node'.maxOrder = max node.maxOrder entry.2

/-- **A node whose child `c` has taken in the entry.**  The other children are as
    before, and the node has the new box, order and children. -/
theorem Grown.of_parts {b b' bounds : Bounds U} {m order newLeaf c : Nat} {cs cs' l r : List Nat}
    {F F' : Multiset Nat} (hi : nodes[i]? = some ⟨b, m, .internal cs⟩)
    (hcover : ∀ e ∈ ((l ++ r).map g).sum + G, e.1.Inside b ∧ e.2 ≤ m)
    (hothers : ∀ a ∈ l ++ r, Subtree nodes a (f a) (g a)) (hle : nodes.length ≤ nodes'.length)
    (hnode : nodes'[i]? = some ⟨b', max m order, .internal cs'⟩) (hb : b.Inside b')
    (hbounds : bounds.Inside b') (hperm : cs'.Perm (l ++ c :: r)) (hc : c ∉ l ++ r)
    (hlength : 2 ≤ cs'.length ∧ cs'.length ≤ maxChildren)
    (hsame : ∀ j ∈ ((l ++ r).map f).sum, nodes'[j]? = nodes[j]?)
    (hchild : Subtree nodes' c F' (G + {(bounds, order)}))
    (hF : F' = F + (newLeaf ::ₘ fresh nodes.length nodes'.length))
    (hlast : ∃ a child, cs'.getLast? = some a ∧ nodes'[a]? = some child ∧ child.maxOrder = max m order)
    (hframe : ∀ j < nodes.length, j ∉ i ::ₘ (((l ++ r).map f).sum + F) → nodes'[j]? = nodes[j]?)
    (hleaf : ∀ (j : Nat) (node : Node U) (o : Nat), nodes[j]? = some node → node.kind = .leaf o → nodes'[j]? = some node)
    : Grown nodes nodes' i (i ::ₘ (((l ++ r).map f).sum + F)) (((l ++ r).map g).sum + G)
      (bounds, order) newLeaf where
  length_le := hle
  subtree := by
    have hparts := Subtree.of_parts hnode hperm hc
      (fun a ha => (hothers a ha).congr (fun j hj => hsame j (mem_sum_map.mpr ⟨a, ha, hj⟩)))
      hchild hlength
      (by
        intro e he
        rw [← add_assoc, Multiset.mem_add] at he
        rcases he with he | he
        · exact ⟨(hcover e he).1.trans hb, (hcover e he).2.trans (le_max_left _ _)⟩
        · rw [Multiset.mem_singleton] at he
          rw [he]
          exact ⟨hbounds, le_max_right _ _⟩)
      hlast
    rw [hF, ← add_assoc, ← add_assoc, ← Multiset.cons_add] at hparts
    exact hparts
  frame := hframe
  leaf := hleaf
  order node hget := by
    rw [hi] at hget
    cases hget
    exact ⟨_, hnode, rfl⟩

theorem getLast?_append_cons {α : Type} (l r : List α) (a : α) :
    (l ++ a :: r).getLast? = some (r.getLast?.getD a) := by
  rw [getLast?_append, getLast?_cons]
  rfl

theorem sum_parts {β : Type} (h : Nat → Multiset β) (l r : List Nat) (c : Nat) :
    ((l ++ c :: r).map h).sum = ((l ++ r).map h).sum + h c := by
  simp only [map_append, map_cons, sum_append, sum_cons]
  abel

/-- An internal node that is about to take in an entry below its child `c`. -/
structure Site (nodes : List (Node U)) (i : Nat) (b : Bounds U) (m : Nat) (l : List Nat) (c : Nat)
    (r : List Nat) (f : Nat → Multiset Nat) (g : Nat → Multiset (Entry U)) (bounds : Bounds U)
    (order newLeaf : Nat) : Prop where
  node : nodes[i]? = some ⟨b, m, .internal (l ++ c :: r)⟩
  children : ∀ a ∈ l ++ c :: r, Subtree nodes a (f a) (g a)
  length : 2 ≤ (l ++ c :: r).length ∧ (l ++ c :: r).length ≤ maxChildren
  cover : ∀ e ∈ ((l ++ r).map g).sum + g c, e.1.Inside b ∧ e.2 ≤ m
  last : ∃ a child, (l ++ c :: r).getLast? = some a ∧ nodes[a]? = some child ∧ child.maxOrder = m
  nodup : (i ::ₘ (((l ++ r).map f).sum + f c)).Nodup
  new : nodes[newLeaf]? = some ⟨bounds, order, .leaf order⟩
  fresh : newLeaf ∉ i ::ₘ (((l ++ r).map f).sum + f c)

namespace Site

variable {b bounds : Bounds U} {m c order newLeaf : Nat} {l r : List Nat}
  {f : Nat → Multiset Nat} {g : Nat → Multiset (Entry U)}

section

variable (h : Site nodes i b m l c r f g bounds order newLeaf)
include h

theorem child : Subtree nodes c (f c) (g c) :=
  h.children c (by simp)

theorem others : ∀ a ∈ l ++ r, Subtree nodes a (f a) (g a) := by
  intro a ha
  apply h.children
  rw [mem_append, mem_cons]
  exact (mem_append.mp ha).imp_right Or.inr

theorem self_notMem : i ∉ ((l ++ r).map f).sum ∧ i ∉ f c := by
  have := (Multiset.nodup_cons.mp h.nodup).1
  rwa [Multiset.mem_add, not_or] at this

theorem new_notMem : newLeaf ≠ i ∧ newLeaf ∉ ((l ++ r).map f).sum ∧ newLeaf ∉ f c := by
  have := h.fresh
  rwa [Multiset.mem_cons, Multiset.mem_add, not_or, not_or] at this

theorem nodup_child : (f c).Nodup :=
  (Multiset.nodup_add.mp (Multiset.nodup_cons.mp h.nodup).2).2.1

/-- The trees of the other children share no node with that of `c`. -/
theorem notMem_child {j : Nat} (hj : j ∈ ((l ++ r).map f).sum) : j ∉ f c :=
  Multiset.disjoint_left.mp (Multiset.nodup_add.mp (Multiset.nodup_cons.mp h.nodup).2).2.2 hj

theorem other_mem {a : Nat} (ha : a ∈ l ++ r) : a ∈ ((l ++ r).map f).sum :=
  mem_sum_map.mpr ⟨a, ha, (h.others a ha).mem_self⟩

theorem child_notMem : c ∉ l ++ r :=
  fun hc => h.notMem_child (h.other_mem hc) h.child.mem_self

theorem lt_length : i < nodes.length ∧ newLeaf < nodes.length :=
  ⟨(List.getElem?_eq_some_iff.mp h.node).1, (List.getElem?_eq_some_iff.mp h.new).1⟩

end

variable {node : Node U} {cs' : List Nat}

section

variable (h : Site nodes i b m l c r f g bounds order newLeaf)
include h

/-- The order of the child `c` is at most that of the node. -/
theorem child_le (hnode : nodes[c]? = some node) : node.maxOrder ≤ m := by
  obtain ⟨node', hnode', -, e, he, heq⟩ := h.child.exists_node
  rw [hnode] at hnode'
  cases hnode'
  rw [← heq]
  exact (h.cover e (Multiset.mem_add.mpr (Or.inr he))).2

/-- A leaf of the vector is not the node itself. -/
theorem ne_of_leaf {j o : Nat} (hnode : nodes[j]? = some node) (hkind : node.kind = .leaf o) :
    j ≠ i := by
  rintro rfl
  rw [h.node] at hnode
  cases hnode
  cases hkind

/-- The last child, when it is not `c`, is one of the others. -/
theorem last_other (hr : r ≠ []) :
    ∃ a child, r.getLast? = some a ∧ a ∈ ((l ++ r).map f).sum ∧ nodes[a]? = some child ∧
      child.maxOrder = m := by
  obtain ⟨a, child, hlast, hget, hmax⟩ := h.last
  rw [getLast?_append_cons] at hlast
  obtain ⟨a', ha'⟩ : ∃ a', r.getLast? = some a' := ⟨_, getLast?_eq_some_getLast hr⟩
  rw [ha', Option.getD_some] at hlast
  cases hlast
  have hmem : a ∈ l ++ r := mem_append_right _ (mem_of_getLast? ha')
  exact ⟨a, child, ha', h.other_mem hmem, hget, hmax⟩

/-- When `c` is the last child, the order of the node is its order. -/
theorem last_self (hr : r = []) (hnode : nodes[c]? = some node) : node.maxOrder = m := by
  obtain ⟨a, child, hlast, hget, hmax⟩ := h.last
  rw [getLast?_append_cons, hr, getLast?_nil, Option.getD_none] at hlast
  cases hlast
  rw [hnode] at hget
  cases hget
  exact hmax

/-- The child `c` has taken in the entry. -/
theorem grown_below {nodes₁ : List (Node U)}
    (hchild : Grown nodes nodes₁ c (f c) (g c) (bounds, order) newLeaf)
    (hperm : cs'.Perm (l ++ c :: r))
    (hend : (m < order ∧ cs'.getLast? = some c) ∨ (cs' = l ++ c :: r ∧ order ≤ m)) :
    Grown nodes (nodes₁.set i ⟨b.union bounds, max m order, .internal cs'⟩) i
      (i ::ₘ (((l ++ r).map f).sum + f c)) (((l ++ r).map g).sum + g c) (bounds, order)
      newLeaf := by
  have hlt₁ : i < nodes₁.length := Nat.lt_of_lt_of_le h.lt_length.1 hchild.length_le
  have hself : (nodes₁.set i ⟨b.union bounds, max m order, .internal cs'⟩)[i]? = _ :=
    getElem?_set_self hlt₁
  have hother : ∀ j, j ≠ i →
      (nodes₁.set i ⟨b.union bounds, max m order, .internal cs'⟩)[j]? = nodes₁[j]? :=
    fun j hj => getElem?_set_ne (Ne.symm hj)
  have hlen : (nodes₁.set i ⟨b.union bounds, max m order, .internal cs'⟩).length =
    nodes₁.length := length_set
  -- from here on the changed vector is known by these three facts
  generalize nodes₁.set i ⟨b.union bounds, max m order, .internal cs'⟩ = nodes₂
    at hself hother hlen ⊢
  have hsame : ∀ j ∈ ((l ++ r).map f).sum, nodes₂[j]? = nodes[j]? := by
    intro j hj
    obtain ⟨a, ha, hja⟩ := mem_sum_map.mp hj
    rw [hother j (fun heq => h.self_notMem.1 (heq ▸ hj))]
    exact hchild.frame j ((h.others a ha).lt_length j hja) (h.notMem_child hj)
  have hci : c ≠ i := fun heq => h.self_notMem.2 (heq ▸ h.child.mem_self)
  obtain ⟨node, hnode, -⟩ := h.child.exists_node
  obtain ⟨node', hnode', hmax'⟩ := hchild.order node hnode
  have hle := h.child_le hnode
  apply Grown.of_parts (c := c) (F := f c) h.node h.cover h.others
    (by rw [hlen]; exact hchild.length_le) hself
    (Bounds.inside_union_left _ _) (Bounds.inside_union_right _ _) hperm h.child_notMem
    (by rw [hperm.length_eq]; exact h.length) hsame
    (hchild.subtree.congr _) (by rw [hlen])
  · -- the last child is `c` with the new order, or the old last child
    rcases hend with ⟨hlt, hlast⟩ | ⟨rfl, hge⟩
    · exact ⟨c, node', hlast, by rw [hother c hci, hnode'], by omega⟩
    · by_cases hr : r = []
      · have := h.last_self hr hnode
        refine ⟨c, node', by rw [getLast?_append_cons, hr]; rfl, by rw [hother c hci, hnode'], ?_⟩
        omega
      · obtain ⟨a, child, hlast, ha, hget, hmax⟩ := h.last_other hr
        exact ⟨a, child, by rw [getLast?_append_cons, hlast]; rfl, by rw [hsame a ha, hget],
          by omega⟩
  · intro j hj hnot
    rw [Multiset.mem_cons, Multiset.mem_add, not_or, not_or] at hnot
    rw [hother j hnot.1]
    exact hchild.frame j hj hnot.2.2
  · intro j node o hget hkind
    rw [hother j (h.ne_of_leaf hget hkind)]
    exact hchild.leaf j node o hget hkind
  · intro j hj
    apply hother
    rintro rfl
    rw [Multiset.mem_add, Multiset.mem_cons] at hj
    rcases hj with hj | rfl | hj
    · exact h.self_notMem.2 hj
    · exact h.new_notMem.1 rfl
    · exact absurd (mem_fresh hj) (by have := h.lt_length.1; omega)

/-- The node has taken the new leaf as a child. -/
theorem grown_add {b' : Bounds U} (hb : b.Inside b') (hbounds : bounds.Inside b')
    (hroom : (l ++ c :: r).length < maxChildren) (hperm : cs'.Perm (l ++ c :: r ++ [newLeaf]))
    (hend : (order ≤ m ∧ cs'.getLast? = (l ++ c :: r).getLast?) ∨
      (m < order ∧ cs'.getLast? = some newLeaf)) :
    Grown nodes (nodes.set i ⟨b', max m order, .internal cs'⟩) i
      (i ::ₘ (((l ++ r).map f).sum + f c)) (((l ++ r).map g).sum + g c) (bounds, order)
      newLeaf := by
  have hself : (nodes.set i ⟨b', max m order, .internal cs'⟩)[i]? = _ :=
    getElem?_set_self h.lt_length.1
  have hother : ∀ j, j ≠ i → (nodes.set i ⟨b', max m order, .internal cs'⟩)[j]? = nodes[j]? :=
    fun j hj => getElem?_set_ne (Ne.symm hj)
  have hlen : (nodes.set i ⟨b', max m order, .internal cs'⟩).length = nodes.length :=
    length_set
  generalize nodes.set i ⟨b', max m order, .internal cs'⟩ = nodes₂ at hself hother hlen ⊢
  have hall : ∀ a ∈ l ++ c :: r, a ∈ ((l ++ r).map f).sum + f c := by
    intro a ha
    rw [← sum_parts]
    exact mem_sum_map.mpr ⟨a, ha, (h.children a ha).mem_self⟩
  have hne : ∀ j ∈ ((l ++ r).map f).sum + f c, j ≠ i := by
    rintro j hj rfl
    exact (Multiset.nodup_cons.mp h.nodup).1 hj
  have hnew : nodes₂[newLeaf]? = some ⟨bounds, order, .leaf order⟩ := by
    rw [hother _ h.new_notMem.1, h.new]
  have hgrown : Grown nodes nodes₂ i (i ::ₘ (((l ++ c :: r ++ []).map f).sum + 0))
      (((l ++ c :: r ++ []).map g).sum + 0) (bounds, order) newLeaf := by
    have hc : newLeaf ∉ l ++ c :: r := by
      intro hmem
      exact h.fresh (Multiset.mem_cons_of_mem (hall _ hmem))
    apply Grown.of_parts (c := newLeaf) (F := 0) (G := 0) h.node
      (by rw [append_nil, sum_parts, add_zero]; exact h.cover)
      (by rw [append_nil]; exact h.children) hlen.ge hself hb hbounds
      hperm (by rwa [append_nil])
      _ _ (.leaf hnew) (by rw [hlen]; simp [BoundsTree.fresh])
    · rcases hend with ⟨hle, hlast⟩ | ⟨hlt, hlast⟩
      · obtain ⟨a, child, hold, hget, hmax⟩ := h.last
        have ha := hall a (mem_of_getLast? hold)
        exact ⟨a, child, by rw [hlast, hold], by rw [hother a (hne a ha), hget], by omega⟩
      · exact ⟨newLeaf, _, hlast, hnew, (Nat.max_eq_right hlt.le).symm⟩
    · intro j _ hnot
      exact hother j (fun heq => hnot (heq ▸ Multiset.mem_cons_self _ _))
    · intro j node o hget hkind
      rw [hother j (h.ne_of_leaf hget hkind), hget]
    · rw [hperm.length_eq, length_append, length_singleton]
      exact ⟨by have := h.length.1; omega, by omega⟩
    · intro j hj
      rw [append_nil, sum_parts] at hj
      exact hother j (hne j hj)
  rwa [append_nil, sum_parts, sum_parts, add_zero, add_zero] at hgrown

/-- The leaf `c` of the node has been replaced by a node over `c` and the new leaf. -/
theorem grown_split {bc : Bounds U} {oc : Nat} (hleaf : nodes[c]? = some ⟨bc, oc, .leaf oc⟩)
    (hperm : cs'.Perm (l ++ nodes.length :: r))
    (hend : (m < max oc order ∧ cs'.getLast? = some nodes.length) ∨
      (max oc order ≤ m ∧ cs' = l ++ nodes.length :: r)) :
    Grown nodes ((nodes ++ [pairNode newLeaf bounds order c ⟨bc, oc, .leaf oc⟩]).set i
        ⟨b.union bounds, max m order, .internal cs'⟩) i
      (i ::ₘ (((l ++ r).map f).sum + f c)) (((l ++ r).map g).sum + g c) (bounds, order)
      newLeaf := by
  generalize hX : pairNode newLeaf bounds order c ⟨bc, oc, .leaf oc⟩ = X
  have hlt : i < (nodes ++ [X]).length := by
    rw [length_append]
    exact Nat.lt_add_right _ h.lt_length.1
  have hself : ((nodes ++ [X]).set i ⟨b.union bounds, max m order, .internal cs'⟩)[i]? = _ :=
    getElem?_set_self hlt
  have hother : ∀ j < nodes.length, j ≠ i →
      ((nodes ++ [X]).set i ⟨b.union bounds, max m order, .internal cs'⟩)[j]? = nodes[j]? := by
    intro j hj hne
    rw [getElem?_set_ne (Ne.symm hne), getElem?_append_left hj]
  have hend' : ((nodes ++ [X]).set i
      ⟨b.union bounds, max m order, .internal cs'⟩)[nodes.length]? = some X := by
    rw [getElem?_set_ne (Nat.ne_of_lt h.lt_length.1), getElem?_concat_length]
  have hlen : ((nodes ++ [X]).set i ⟨b.union bounds, max m order, .internal cs'⟩).length =
    nodes.length + 1 := by simp
  generalize (nodes ++ [X]).set i ⟨b.union bounds, max m order, .internal cs'⟩ = nodes₂
    at hself hother hend' hlen ⊢
  rw [← hX] at hend'
  obtain ⟨-, hfc, hgc⟩ := h.child.eq_leaf hleaf
  have hci : c ≠ i := fun heq => h.self_notMem.2 (heq ▸ h.child.mem_self)
  have hclt : c < nodes.length := (List.getElem?_eq_some_iff.mp hleaf).1
  have hle : oc ≤ m := h.child_le hleaf
  have hsame : ∀ j ∈ ((l ++ r).map f).sum, nodes₂[j]? = nodes[j]? := by
    intro j hj
    obtain ⟨a, ha, hja⟩ := mem_sum_map.mp hj
    exact hother j ((h.others a ha).lt_length j hja) (fun heq => h.self_notMem.1 (heq ▸ hj))
  have hpair : Subtree nodes₂ nodes.length (nodes.length ::ₘ ({c} + {newLeaf}))
      ({(bc, oc)} + {(bounds, order)}) :=
    Subtree.of_pair hend' (by rw [hother c hclt hci, hleaf])
      (by rw [hother _ h.lt_length.2 h.new_notMem.1, h.new])
      (fun heq => h.new_notMem.2.2 (heq ▸ h.child.mem_self))
  have hnew : nodes.length ∉ l ++ r := by
    intro hmem
    exact absurd ((h.others _ hmem).lt_length _ (h.others _ hmem).mem_self) (Nat.lt_irrefl _)
  apply Grown.of_parts (c := nodes.length) (F := f c) h.node h.cover h.others (by omega) hself
    (Bounds.inside_union_left _ _) (Bounds.inside_union_right _ _) hperm hnew _ hsame
    (by rw [hgc]; exact hpair)
  · rw [hfc, hlen]
    have hfresh : BoundsTree.fresh nodes.length (nodes.length + 1) = {nodes.length} := by
      simp [BoundsTree.fresh]
    rw [hfresh, ← Multiset.singleton_add, ← Multiset.singleton_add]
    abel
  · -- the new node is last when its order is the largest, or when it replaced the last child
    rcases hend with ⟨hgt, hlast⟩ | ⟨hge, rfl⟩
    · refine ⟨nodes.length, _, hlast, hend', ?_⟩
      show max oc order = max m order
      omega
    · by_cases hr : r = []
      · have hm : oc = m := h.last_self hr hleaf
        refine ⟨nodes.length, _, by rw [getLast?_append_cons, hr]; rfl, hend', ?_⟩
        show max oc order = max m order
        rw [hm]
      · obtain ⟨a, child, hlast, ha, hget, hmax⟩ := h.last_other hr
        exact ⟨a, child, by rw [getLast?_append_cons, hlast]; rfl, by rw [hsame a ha, hget],
          by omega⟩
  · intro j hj hnot
    exact hother j hj (fun heq => hnot (heq ▸ Multiset.mem_cons_self _ _))
  · intro j node o hget hkind
    rw [hother j (List.getElem?_eq_some_iff.mp hget).1 (h.ne_of_leaf hget hkind), hget]
  · rw [hperm.length_eq]
    simpa using h.length

end

end Site

/-- The descent from `i` changes nodes and leaves the path `down`; on the way up
    from there the tree at `i` has taken in the new leaf. -/
def Inserts (nodes : List (Node U)) (i : Nat) (idxs : Multiset Nat) (es : Multiset (Entry U))
    (bounds : Bounds U) (order newLeaf : Nat) : Prop :=
  ∃ nodes₁ nodes₂ down,
    (∀ n path, idxs.card < n →
      loop .loopBound (descendBody nodes newLeaf bounds order) n (path, i) =
        .ok (nodes₁, down ++ path)) ∧
    (∀ rest, propagate bounds order nodes₁ (down ++ rest) none =
      propagate bounds order nodes₂ rest (some i)) ∧
    Grown nodes nodes₂ i idxs es (bounds, order) newLeaf

namespace Site

variable {b bounds : Bounds U} {m c order newLeaf : Nat} {l r : List Nat}
  {f : Nat → Multiset Nat} {g : Nat → Multiset (Entry U)}

variable {bc : Bounds U} {oc : Nat}

section

variable (h : Site nodes i b m l c r f g bounds order newLeaf)
  (hbest : bestChild nodes bounds (l ++ c :: r) = .ok (c, l.length))
include h hbest

/-- The best child is a leaf and the node has room. -/
theorem inserts_add {o : Nat} (hchild : nodes[c]? = some ⟨bc, oc, .leaf o⟩)
    (hroom : (l ++ c :: r).length < maxChildren) :
    Inserts nodes i (i ::ₘ (((l ++ r).map f).sum + f c)) (((l ++ r).map g).sum + g c)
      bounds order newLeaf := by
  obtain ⟨cs', hadd, hperm, hend⟩ :=
    addChild_spec nodes newLeaf i m order b bounds (by simp) hroom
  obtain ⟨cs'', hupdate, -, hcs''⟩ :=
    updateNode_spec (b.union bounds) bounds (max m order) order cs'
      (show ∀ a, none = some a → a ∈ cs' by simp)
  have hsame : cs'' = cs' := by
    rcases hcs'' with ⟨hgt, -⟩ | ⟨heq, -⟩
    · omega
    · exact heq
  rw [hsame, Nat.max_eq_left (le_max_right _ _)] at hupdate
  refine ⟨nodes.set i ⟨b.union bounds, max m order, .internal cs'⟩,
    nodes.set i ⟨(b.union bounds).union bounds, max m order, .internal cs'⟩, [i], ?_, ?_, ?_⟩
  · intro n path hn
    obtain ⟨n, rfl⟩ : ∃ k, n = k + 1 := ⟨n - 1, by omega⟩
    rw [loop]
    simp only [descendBody, getIndex_eq_ok h.node, ok_bind, hbest, getIndex_eq_ok hchild,
      if_pos hroom, hadd]
    rfl
  · intro rest
    simp only [singleton_append, propagate,
      getIndex_eq_ok (getElem?_set_self h.lt_length.1), ok_bind, hupdate, set_set]
  · exact h.grown_add ((Bounds.inside_union_left _ _).trans (Bounds.inside_union_left _ _))
      (Bounds.inside_union_right _ _) hroom hperm hend

/-- The best child is a leaf and the node is full. -/
theorem inserts_split (hchild : nodes[c]? = some ⟨bc, oc, .leaf oc⟩)
    (hfull : ¬ (l ++ c :: r).length < maxChildren) :
    Inserts nodes i (i ::ₘ (((l ++ r).map f).sum + f c)) (((l ++ r).map g).sum + g c)
      bounds order newLeaf := by
  obtain ⟨cs', hsplit, hperm, hend⟩ :=
    splitChild_spec nodes newLeaf i m order c b bounds l r ⟨bc, oc, .leaf oc⟩
  obtain ⟨cs'', hupdate, -, hcs''⟩ := updateNode_spec b bounds m order cs'
    (show ∀ a, none = some a → a ∈ cs' by simp)
  have hsame : cs'' = cs' := by
    rcases hcs'' with ⟨-, _, hnone, -⟩ | ⟨heq, -⟩
    · cases hnone
    · exact heq
  rw [hsame] at hupdate
  refine ⟨(nodes ++ [pairNode newLeaf bounds order c ⟨bc, oc, .leaf oc⟩]).set i
    ⟨b, m, .internal cs'⟩, _, [i], ?_, ?_, h.grown_split hchild hperm hend⟩
  · intro n path hn
    obtain ⟨n, rfl⟩ : ∃ k, n = k + 1 := ⟨n - 1, by omega⟩
    rw [loop]
    simp only [descendBody, getIndex_eq_ok h.node, ok_bind, hbest, getIndex_eq_ok hchild,
      if_neg hfull, hsplit]
    rfl
  · intro rest
    have hlt : i < (nodes ++ [pairNode newLeaf bounds order c ⟨bc, oc, .leaf oc⟩]).length := by
      rw [length_append]
      exact Nat.lt_add_right _ h.lt_length.1
    simp only [singleton_append, propagate, getIndex_eq_ok (getElem?_set_self hlt),
      ok_bind, hupdate, set_set]

/-- The best child is internal: the entry goes below it. -/
theorem inserts_below {cs₂ : List Nat} (hchild : nodes[c]? = some ⟨bc, oc, .internal cs₂⟩)
    (hbelow : Inserts nodes c (f c) (g c) bounds order newLeaf) :
    Inserts nodes i (i ::ₘ (((l ++ r).map f).sum + f c)) (((l ++ r).map g).sum + g c)
      bounds order newLeaf := by
  obtain ⟨nodes₁, nodes₂, down, hdescend, hpropagate, hgrown⟩ := hbelow
  have hnode : nodes₂[i]? = some ⟨b, m, .internal (l ++ c :: r)⟩ := by
    rw [hgrown.frame i h.lt_length.1 h.self_notMem.2, h.node]
  obtain ⟨cs', hupdate, hperm, hend⟩ :=
    updateNode_spec b bounds m order (l ++ c :: r)
      (show ∀ a, some c = some a → a ∈ l ++ c :: r by simp)
  refine ⟨nodes₁, _, down ++ [i], ?_, ?_, h.grown_below hgrown hperm ?_⟩
  · intro n path hn
    obtain ⟨n, rfl⟩ : ∃ k, n = k + 1 := ⟨n - 1, by omega⟩
    rw [Multiset.card_cons, Multiset.card_add] at hn
    rw [loop]
    simp only [descendBody, getIndex_eq_ok h.node, ok_bind, hbest, getIndex_eq_ok hchild]
    rw [hdescend n (i :: path) (by omega), append_assoc]
    rfl
  · intro rest
    rw [append_assoc, hpropagate]
    simp only [singleton_append, propagate, getIndex_eq_ok hnode, ok_bind, hupdate]
  · rcases hend with ⟨hgt, c', hc', hlast⟩ | ⟨heq, hle | hnone⟩
    · cases hc'
      exact Or.inl ⟨hgt, hlast⟩
    · exact Or.inr ⟨heq, hle⟩
    · cases hnone

end

end Site

/-- **Insertion below an internal node.** -/
theorem Subtree.inserts {newLeaf order : Nat} {bounds : Bounds U} (h : Subtree nodes i idxs es)
    (hnodup : idxs.Nodup) (hinternal : ∃ b m cs, nodes[i]? = some ⟨b, m, .internal cs⟩)
    (hnew : nodes[newLeaf]? = some ⟨bounds, order, .leaf order⟩) (hfresh : newLeaf ∉ idxs) :
    Inserts nodes i idxs es bounds order newLeaf := by
  induction h with
  | leaf node =>
    obtain ⟨b, m, cs, hget⟩ := hinternal
    rw [node] at hget
    cases hget
  | @internal i b m cs f g node children length cover last ih =>
    have hne : cs ≠ [] := by
      intro hnil
      rw [hnil] at length
      exact absurd length.1 (by decide)
    obtain ⟨c, l, r, hbest, rfl⟩ := bestChild_spec bounds hne
      (fun c hc => let ⟨node, hget, _⟩ := (children c hc).exists_node; ⟨node, hget⟩)
    rw [sum_parts] at hnodup hfresh cover ⊢
    rw [sum_parts]
    have site : Site nodes i b m l c r f g bounds order newLeaf :=
      ⟨node, children, length, cover, last, hnodup, hnew, hfresh⟩
    obtain ⟨⟨bc, oc, kind⟩, hchild, -⟩ := site.child.exists_node
    cases kind with
    | leaf o =>
      by_cases hroom : (l ++ c :: r).length < maxChildren
      · exact site.inserts_add hbest hchild hroom
      · obtain ⟨rfl, -, -⟩ := site.child.eq_leaf hchild
        exact site.inserts_split hbest hchild hroom
    | internal cs₂ =>
      apply site.inserts_below hbest hchild
      exact ih c (by simp) site.nodup_child ⟨bc, oc, cs₂, hchild⟩ site.new_notMem.2.2

end BoundsTree

end Gpui
