import Mathlib

/-! # Forests

    Nodes that know their parent and their children.  Two measures keep a forest finite: going
    up, the depth decreases, and below a node there is less weight than the node has.

    * `ancestors` are a node, its parent, and so on up to a root.
    * `walk` visits what is below the nodes of a stack.  **`mem_visited`**: it visits the nodes
      that have an ancestor on the stack. -/

structure Forest (ι : Type u) where
  parent : ι → Option ι
  children : ι → List ι
  depth : ι → ℕ
  weight : ι → ℕ
  mem_children : ∀ p c, c ∈ children p ↔ parent c = some p
  depth_lt : ∀ p c, parent c = some p → depth p < depth c
  weight_lt : ∀ p, ((children p).map weight).sum < weight p

namespace Forest

open List

variable {ι : Type u} (f : Forest ι)

/-! ### Ancestors -/

/-- The node itself and what is above it, the root last. -/
def ancestors (node : ι) : List ι :=
  match _h : f.parent node with
  | none   => [node]
  | some p => node :: ancestors p
termination_by f.depth node
decreasing_by exact f.depth_lt p node _h

variable {f} {a b c p : ι}

theorem ancestors_root (h : f.parent a = none) : f.ancestors a = [a] := by
  unfold ancestors
  split
  · rfl
  · next p hp => rw [h] at hp; cases hp

theorem ancestors_child (h : f.parent c = some p) : f.ancestors c = c :: f.ancestors p := by
  rw [ancestors]
  split
  · next hp => rw [h] at hp; cases hp
  · next q hp =>
    rw [h] at hp
    cases hp
    rfl

theorem mem_ancestors_self (a : ι) : a ∈ f.ancestors a := by
  cases h : f.parent a with
  | none =>
    rw [ancestors_root h]
    exact mem_singleton_self a
  | some p =>
    rw [ancestors_child h]
    exact mem_cons_self

theorem mem_ancestors_child (h : f.parent c = some p) :
    a ∈ f.ancestors c ↔ a = c ∨ a ∈ f.ancestors p := by
  rw [ancestors_child h, mem_cons]

theorem mem_ancestors_root (h : f.parent c = none) : a ∈ f.ancestors c ↔ a = c := by
  rw [ancestors_root h, mem_singleton]

/-- Induction from the roots down. -/
theorem downward {P : ι → Prop} (hroot : ∀ a, f.parent a = none → P a)
    (hchild : ∀ p c, f.parent c = some p → P p → P c) (a : ι) : P a := by
  -- induction on the depth
  induction hn : f.depth a using Nat.strongRecOn generalizing a with
  | ind n ih =>
    cases h : f.parent a with
    | none => exact hroot a h
    | some p =>
      have hlt := f.depth_lt p a h
      rw [hn] at hlt
      exact hchild p a h (ih _ hlt p rfl)

theorem mem_ancestors_trans (hab : a ∈ f.ancestors b) (hbc : b ∈ f.ancestors c) :
    a ∈ f.ancestors c := by
  induction c using f.downward with
  | hroot c hc =>
    rw [mem_ancestors_root hc] at hbc
    rw [← hbc]
    exact hab
  | hchild p c hc ih =>
    obtain rfl | hbp := (mem_ancestors_child hc).mp hbc
    · exact hab
    · exact (mem_ancestors_child hc).mpr (.inr (ih hbp))

/-- A node has one root. -/
theorem root_unique (ha : f.parent a = none) (hb : f.parent b = none)
    (hac : a ∈ f.ancestors c) (hbc : b ∈ f.ancestors c) : a = b := by
  induction c using f.downward with
  | hroot c hc =>
    rw [mem_ancestors_root hc] at hac hbc
    exact hac.trans hbc.symm
  | hchild p c hc ih =>
    have hne : ∀ r, f.parent r = none → r ≠ c := by
      intro r hr heq
      rw [heq, hc] at hr
      cases hr
    rw [mem_ancestors_child hc] at hac hbc
    exact ih (hac.resolve_left (hne a ha)) (hbc.resolve_left (hne b hb))

/-- What is below a node is the node or below one of its children. -/
theorem mem_ancestors_iff_child :
    a ∈ f.ancestors b ↔ b = a ∨ ∃ c ∈ f.children a, c ∈ f.ancestors b := by
  constructor
  · intro h
    induction b using f.downward with
    | hroot b hb =>
      rw [mem_ancestors_root hb] at h
      exact .inl h.symm
    | hchild p b hb ih =>
      obtain rfl | hp := (mem_ancestors_child hb).mp h
      · exact .inl rfl
      · obtain rfl | ⟨c, hc, hcp⟩ := ih hp
        · exact .inr ⟨b, (f.mem_children _ _).mpr hb, mem_ancestors_self b⟩
        · exact .inr ⟨c, hc, (mem_ancestors_child hb).mpr (.inr hcp)⟩
  · intro h
    obtain rfl | ⟨c, hc, hcb⟩ := h
    · exact mem_ancestors_self b
    · have hparent := (f.mem_children _ _).mp hc
      have hac : a ∈ f.ancestors c :=
        (mem_ancestors_child hparent).mpr (.inr (mem_ancestors_self a))
      exact mem_ancestors_trans hac hcb

/-! ### Walks -/

/-- The children of a node on top of a stack, the last one first. -/
def push (f : Forest ι) (a : ι) (stack : List ι) : List ι := (f.children a).reverse ++ stack

theorem weight_push_lt (f : Forest ι) (a : ι) (stack : List ι) :
    ((f.push a stack).map f.weight).sum < ((a :: stack).map f.weight).sum := by
  have hlt := f.weight_lt a
  rw [push, map_append, sum_append, map_reverse, sum_reverse, map_cons,
    sum_cons]
  omega

/-- Takes the top of a stack until it is empty, and puts the children of what is taken on it. -/
def walk {σ : Type v} (f : Forest ι) (visit : σ → ι → σ) (s : σ) : List ι → σ
  | []         => s
  | a :: stack => walk f visit (visit s a) (f.push a stack)
termination_by stack => (stack.map f.weight).sum
decreasing_by exact f.weight_push_lt a stack

/-- The nodes in the order in which a walk visits them. -/
def visited (f : Forest ι) : List ι → List ι
  | []         => []
  | a :: stack => a :: visited f (f.push a stack)
termination_by stack => (stack.map f.weight).sum
decreasing_by exact f.weight_push_lt a stack

theorem walk_eq_foldl {σ : Type v} (visit : σ → ι → σ) (s : σ) (stack : List ι) :
    f.walk visit s stack = (f.visited stack).foldl visit s := by
  induction s, stack using walk.induct f visit with
  | case1 s =>
    rw [walk, visited]
    rfl
  | case2 s a stack ih =>
    rw [walk, visited, foldl_cons, ih]

theorem mem_visited {stack : List ι} :
    b ∈ f.visited stack ↔ ∃ a ∈ stack, a ∈ f.ancestors b := by
  induction stack using visited.induct f with
  | case1 =>
    rw [visited]
    simp
  | case2 a stack ih =>
    rw [visited, mem_cons, ih]
    simp only [push, mem_append, mem_reverse, mem_cons]
    constructor
    · intro h
      obtain rfl | ⟨c, hc | hc, hcb⟩ := h
      · exact ⟨b, .inl rfl, mem_ancestors_self b⟩
      · exact ⟨a, .inl rfl, mem_ancestors_iff_child.mpr (.inr ⟨c, hc, hcb⟩)⟩
      · exact ⟨c, .inr hc, hcb⟩
    · intro h
      obtain ⟨c, rfl | hc, hcb⟩ := h
      · obtain rfl | ⟨d, hd, hdb⟩ := mem_ancestors_iff_child.mp hcb
        · exact .inl rfl
        · exact .inr ⟨d, .inl hd, hdb⟩
      · exact .inr ⟨c, .inr hc, hcb⟩

end Forest
