import Mathlib

/-! # Rooted trees that are listed

    A tree that is given by the list of its nodes in any order, each with a key and with
    the keys of its children.

    * `IsTree` says of such a list that it is a tree: keys are not repeated, every key but
      the root's is listed as a child once, and every node is reached from the root.
    * **`IsTree.acyclic`**: then no node is below itself.
    * **`IsTree.attach`**: a new leaf below a node of a tree gives a tree. -/

namespace RootedTree

open List

variable {ι : Type u} {ν : Type v}

/-- The node with one key lists another key as a child. -/
def Child (key : ν → ι) (children : ν → List ι) (nodes : List ν) (parent child : ι) : Prop :=
  ∃ node ∈ nodes, key node = parent ∧ child ∈ children node

structure IsTree (key : ν → ι) (children : ν → List ι) (root : ι) (nodes : List ν) : Prop where
  keys : (nodes.map key).Nodup
  listed : (root :: nodes.flatMap children).Perm (nodes.map key)
  reachable : ∀ id ∈ nodes.map key, Relation.ReflTransGen (Child key children nodes) root id

namespace IsTree

variable {key : ν → ι} {children : ν → List ι} {root : ι} {nodes nodes' : List ν}

theorem singleton (node : ν) (h : children node = []) :
    IsTree key children (key node) [node] where
  keys := nodup_singleton _
  listed := by
    rw [flatMap_singleton, h]
    exact List.Perm.refl _
  reachable := by
    intro id hid
    rw [mem_singleton.mp hid]

theorem perm (h : IsTree key children root nodes) (hperm : nodes.Perm nodes') :
    IsTree key children root nodes' where
  keys := (hperm.map key).nodup_iff.mp h.keys
  listed := ((hperm.flatMap_right children).symm.cons root).trans
    (h.listed.trans (hperm.map key))
  reachable := by
    intro id hid
    have hsame : ∀ parent child, Child key children nodes parent child →
        Child key children nodes' parent child := by
      intro parent child ⟨node, hnode, hrest⟩
      exact ⟨node, hperm.mem_iff.mp hnode, hrest⟩
    exact Relation.ReflTransGen.mono hsame _ _ (h.reachable id ((hperm.map key).mem_iff.mpr hid))

/-! ### Parents -/

section

variable (h : IsTree key children root nodes)
include h

theorem nodup_children : (root :: nodes.flatMap children).Nodup :=
  h.listed.nodup_iff.mpr h.keys

theorem root_mem : root ∈ nodes.map key :=
  h.listed.mem_iff.mp (mem_cons_self ..)

theorem child_mem {node : ν} (hnode : node ∈ nodes) {child : ι} (hchild : child ∈ children node) :
    child ∈ nodes.map key := by
  apply h.listed.mem_iff.mp
  exact mem_cons_of_mem _ (mem_flatMap.mpr ⟨node, hnode, hchild⟩)

theorem not_child_root (parent : ι) : ¬ Child key children nodes parent root := by
  intro ⟨node, hnode, _, hchild⟩
  apply (nodup_cons.mp h.nodup_children).1
  exact mem_flatMap.mpr ⟨node, hnode, hchild⟩

end

/-- Every node but the root is listed as a child once. -/
theorem count_child [DecidableEq ι] (h : IsTree key children root nodes) {id : ι}
    (hid : id ∈ nodes.map key) (hroot : id ≠ root) : (nodes.flatMap children).count id = 1 := by
  have hlisted := h.listed.mem_iff.mpr hid
  rcases mem_cons.mp hlisted with heq | hmem
  · exact absurd heq hroot
  · exact count_eq_one_of_mem (nodup_cons.mp h.nodup_children).2 hmem

theorem parent_unique (h : IsTree key children root nodes) {parent other child : ι}
    (hparent : Child key children nodes parent child)
    (hother : Child key children nodes other child) : parent = other := by
  obtain ⟨node, hnode, hkey, hchild⟩ := hparent
  obtain ⟨node', hnode', hkey', hchild'⟩ := hother
  have hdisjoint := (nodup_flatMap.mp (nodup_cons.mp h.nodup_children).2).2
  -- the lists of children of two nodes have nothing in common
  have : Std.Symm (Function.onFun List.Disjoint children) := ⟨fun _ _ hab => hab.symm⟩
  by_contra hne
  have hnodes : node ≠ node' := by
    intro heq
    rw [heq, hkey'] at hkey
    exact hne hkey.symm
  exact hdisjoint.forall hnode hnode' hnodes hchild hchild'

/-- **No node is below itself.**  By induction on the way from the root: a cycle through a
    child goes through its parent too, and none goes through the root. -/
theorem acyclic (h : IsTree key children root nodes) (id : ι) :
    ¬ Relation.TransGen (Child key children nodes) id id := by
  intro hcycle
  have hid : id ∈ nodes.map key := by
    obtain ⟨parent, _, node, hnode, _, hchild⟩ := Relation.TransGen.tail'_iff.mp hcycle
    exact h.child_mem hnode hchild
  have hreach := h.reachable id hid
  clear hid
  induction hreach with
  | refl =>
    obtain ⟨parent, _, hchild⟩ := Relation.TransGen.tail'_iff.mp hcycle
    exact h.not_child_root parent hchild
  | tail _ hchild ih =>
    obtain ⟨parent, hbelow, hlast⟩ := Relation.TransGen.tail'_iff.mp hcycle
    rw [h.parent_unique hlast hchild] at hbelow
    exact ih (Relation.TransGen.head' hchild hbelow)

/-! ### A new leaf -/

section

variable {extend : ν → ν} {parent : ι} {leaf : ν} [DecidableEq ι]

/-- What an attached leaf changes: the parent lists it last. -/
structure Attaches (key : ν → ι) (children : ν → List ι) (parent : ι) (leaf : ν)
    (extend : ν → ν) : Prop where
  key_eq : ∀ node, key (extend node) = key node
  children_eq : ∀ node, children (extend node) =
    if key node = parent then children node ++ [key leaf] else children node

namespace Attaches

section

variable (h : Attaches key children parent leaf extend)
include h

theorem map_key (nodes : List ν) : (nodes.map extend).map key = nodes.map key := by
  rw [map_map]
  exact map_congr_left (fun node _ => h.key_eq node)

theorem flatMap_of_notMem (hparent : parent ∉ nodes.map key) :
    (nodes.map extend).flatMap children = nodes.flatMap children := by
  rw [flatMap_map]
  apply flatMap_congr
  intro node hnode
  rw [h.children_eq node, if_neg]
  intro heq
  exact hparent (mem_map.mpr ⟨node, hnode, heq⟩)

/-- The leaf is listed as a child once more. -/
theorem flatMap_perm (hkeys : (nodes.map key).Nodup) (hparent : parent ∈ nodes.map key) :
    ((nodes.map extend).flatMap children).Perm (key leaf :: nodes.flatMap children) := by
  induction nodes with
  | nil => cases hparent
  | cons node rest ih =>
    rw [map_cons, nodup_cons] at hkeys
    rw [map_cons, flatMap_cons, flatMap_cons, h.children_eq node]
    by_cases hnode : key node = parent
    · -- the others are not the parent
      rw [hnode] at hkeys
      rw [if_pos hnode, h.flatMap_of_notMem hkeys.1, append_assoc]
      exact perm_middle
    · rw [if_neg hnode]
      have hrest : parent ∈ rest.map key := by
        rcases mem_cons.mp hparent with heq | hmem
        · exact absurd heq.symm hnode
        · exact hmem
      exact ((ih hkeys.2 hrest).append_left _).trans perm_middle

end

end Attaches

theorem attach (h : IsTree key children root nodes)
    (hattach : Attaches key children parent leaf extend) (hparent : parent ∈ nodes.map key)
    (hnew : key leaf ∉ nodes.map key) (hleaf : children leaf = []) :
    IsTree key children root (leaf :: nodes.map extend) where
  keys := by
    rw [map_cons, hattach.map_key]
    exact nodup_cons.mpr ⟨hnew, h.keys⟩
  listed := by
    rw [map_cons, hattach.map_key, flatMap_cons, hleaf, nil_append]
    have hlisted := (hattach.flatMap_perm h.keys hparent).cons root
    exact hlisted.trans ((List.Perm.swap _ _ _).trans (h.listed.cons _))
  reachable := by
    have hold : ∀ above below, Child key children nodes above below →
        Child key children (leaf :: nodes.map extend) above below := by
      intro above below hchild
      obtain ⟨node, hnode, hkey, hmem⟩ := hchild
      refine ⟨extend node, mem_cons_of_mem _ (mem_map_of_mem hnode), ?_, ?_⟩
      · rw [hattach.key_eq, hkey]
      · rw [hattach.children_eq]
        split
        · exact mem_append_left _ hmem
        · exact hmem
    intro id hid
    rw [map_cons, hattach.map_key] at hid
    rcases mem_cons.mp hid with heq | hmem
    · -- the leaf is reached through its parent
      obtain ⟨node, hnode, hkey⟩ := mem_map.mp hparent
      apply (Relation.ReflTransGen.mono hold _ _ (h.reachable parent hparent)).tail
      refine ⟨extend node, mem_cons_of_mem _ (mem_map_of_mem hnode), ?_, ?_⟩
      · rw [hattach.key_eq, hkey]
      · rw [hattach.children_eq, if_pos hkey, heq]
        exact mem_append_right _ (mem_singleton_self _)
    · exact Relation.ReflTransGen.mono hold _ _ (h.reachable id hmem)

end

end IsTree

end RootedTree
