import Gpui.Scene.BatchSpec
import Gpui.Scene.BoundsTreeOrder

/-! # Painter's order

    A scene is built by pushing and popping layers and inserting primitives.  Every draw
    order is allocated for the bounds of a layer or of a primitive outside of layers, and
    is above the orders allocated before for bounds that meet these.  So what is inserted
    over a primitive, with an order that was allocated later, is drawn after it. -/

namespace Gpui

open List

open Exec (Returns)

variable {U S : Type}

/-! ## Calls and what is written down of them -/

/-- What builds a scene. -/
inductive SceneCall (U S : Type) where
  | pushLayer (bounds : Bounds U)
  | popLayer
  | insertPrimitive (primitive : Primitive U S)

namespace Primitive

/-- A primitive with its order and, for a path, its id. -/
def assign (order id : Nat) : Primitive U S → Primitive U S
  | .shadow s           => .shadow { s with order := order }
  | .quad q             => .quad { q with order := order }
  | .path p             => .path { p with order := order, id := id }
  | .underline u        => .underline { u with order := order }
  | .monochromeSprite s => .monochromeSprite { s with order := order }
  | .subpixelSprite s   => .subpixelSprite { s with order := order }
  | .polychromeSprite s => .polychromeSprite { s with order := order }
  | .surface s          => .surface { s with order := order }

theorem assign_frame (order id : Nat) (p : Primitive U S) :
    (p.assign order id).order = order ∧ (p.assign order id).kind = p.kind ∧
      (p.assign order id).bounds = p.bounds ∧ (p.assign order id).contentMask = p.contentMask := by
  cases p <;> exact ⟨rfl, rfl, rfl, rfl⟩

end Primitive

/-- What the scene writes down of a call. -/
def SceneCall.Records : SceneCall U S → PaintOperation U S → Prop
  | .pushLayer bounds,          .startLayer bounds'   => bounds' = bounds
  | .popLayer,                  .endLayer             => True
  | .insertPrimitive primitive, .primitive primitive' =>
      ∃ order id, primitive' = primitive.assign order id
  | _,                          _                     => False

variable {operation : PaintOperation U S}

theorem records_insertPrimitive {p : Primitive U S}
    (h : (SceneCall.insertPrimitive p).Records operation) :
    ∃ order id, operation = .primitive (p.assign order id) := by
  cases operation with
  | primitive p' =>
    obtain ⟨order, id, rfl⟩ := h
    exact ⟨order, id, rfl⟩
  | startLayer _ => exact h.elim
  | endLayer => exact h.elim

theorem records_pushLayer {bounds : Bounds U}
    (h : (SceneCall.pushLayer bounds).Records operation) : operation = .startLayer bounds := by
  cases operation with
  | startLayer _ => rw [show _ = bounds from h]
  | primitive _ => exact h.elim
  | endLayer => exact h.elim

theorem records_popLayer
    (h : (SceneCall.popLayer : SceneCall U S).Records operation) : operation = .endLayer := by
  cases operation with
  | endLayer => rfl
  | primitive _ => exact h.elim
  | startLayer _ => exact h.elim

namespace Scene

theorem store_spec (scene : Scene U S) (order : Nat) (p : Primitive U S) :
    ∃ id, (scene.store order p).2 = p.assign order id ∧
      (scene.store order p).1.paintOperations = scene.paintOperations ∧
      (scene.store order p).1.primitiveBounds = scene.primitiveBounds ∧
      (scene.store order p).1.layerStack = scene.layerStack ∧
      ∀ kind, (scene.store order p).1.ofKind kind
        = scene.ofKind kind ++ [p.assign order id].filter (fun p => p.kind = kind) := by
  cases p <;>
  · refine ⟨scene.paths.length, rfl, rfl, rfl, rfl, ?_⟩
    intro kind
    cases kind <;> simp [store, ofKind, Primitive.assign, Primitive.kind]

end Scene

/-! ## Layers -/

/-- The open layers after one more operation. -/
def stepLayers (layers : List (Nat × Bounds U)) (entry : PaintOperation U S × Nat) :
    List (Nat × Bounds U) :=
  match entry.1 with
  | .startLayer bounds => layers ++ [(entry.2, bounds)]
  | .endLayer          => layers.dropLast
  | .primitive _       => layers

/-- The layers that are open after some operations: when they were pushed, and their
    bounds. -/
def openLayers (log : List (PaintOperation U S)) : List (Nat × Bounds U) :=
  log.zipIdx.foldl stepLayers []

/-- When and for which bounds the order of the primitive at a position was allocated: for
    the innermost layer, or for the primitive itself. -/
def allocatedFor (log : List (PaintOperation U S)) (position : Nat) (clippedBounds : Bounds U) :
    Nat × Bounds U :=
  (openLayers (log.take position)).getLast?.getD (position, clippedBounds)

def PaintOperation.primitive? : PaintOperation U S → Option (Primitive U S)
  | .primitive p  => some p
  | .startLayer _ => none
  | .endLayer     => none

/-- The primitives of some operations. -/
def primitivesIn (log : List (PaintOperation U S)) : List (Primitive U S) :=
  log.filterMap PaintOperation.primitive?

theorem primitivesIn_concat (log : List (PaintOperation U S)) (operation : PaintOperation U S) :
    primitivesIn (log ++ [operation]) = primitivesIn log ++ operation.primitive?.toList := by
  rw [primitivesIn, primitivesIn, filterMap_append]
  cases operation <;> rfl

theorem openLayers_concat (log : List (PaintOperation U S)) (operation : PaintOperation U S) :
    openLayers (log ++ [operation]) = stepLayers (openLayers log) (operation, log.length) := by
  rw [openLayers, zipIdx_append, foldl_append, Nat.zero_add]
  rfl

/-- A layer was pushed before. -/
theorem lt_of_mem_openLayers {log : List (PaintOperation U S)} {layer : Nat × Bounds U}
    (h : layer ∈ openLayers log) : layer.1 < log.length := by
  induction log using List.reverseRecOn with
  | nil => cases h
  | append_singleton log operation ih =>
    rw [openLayers_concat] at h
    rw [length_append, length_singleton]
    cases operation with
    | primitive p => exact Nat.lt_succ_of_lt (ih h)
    | endLayer => exact Nat.lt_succ_of_lt (ih (mem_of_mem_dropLast h))
    | startLayer bounds =>
      rcases mem_append.1 h with h | h
      · exact Nat.lt_succ_of_lt (ih h)
      · rw [mem_singleton.1 h]
        exact Nat.lt_succ_self _

theorem allocatedFor_le (log : List (PaintOperation U S)) (position : Nat)
    (clippedBounds : Bounds U) : (allocatedFor log position clippedBounds).1 ≤ position := by
  rw [allocatedFor]
  cases hlast : (openLayers (log.take position)).getLast? with
  | none => exact Nat.le_refl position
  | some layer =>
    have hlt := lt_of_mem_openLayers (mem_of_getLast? hlast)
    rw [length_take] at hlt
    exact (Nat.lt_of_lt_of_le hlt (Nat.min_le_left _ _)).le

theorem allocatedFor_append (log more : List (PaintOperation U S)) {position : Nat}
    (h : position ≤ log.length) (clippedBounds : Bounds U) :
    allocatedFor (log ++ more) position clippedBounds = allocatedFor log position clippedBounds := by
  rw [allocatedFor, allocatedFor, take_append_of_le_length h]

/-! ## What is drawn -/

/-- Every kind is drawn in full, so everything is. -/
theorem perm_of_filter_kind {xs ys : List (Primitive U S)}
    (h : ∀ kind, (xs.filter (fun p => p.kind = kind)).Perm (ys.filter (fun p => p.kind = kind))) :
    xs.Perm ys := by
  classical
  rw [perm_iff_count]
  intro p
  have hcount := (h p.kind).count_eq p
  rwa [count_filter (by simp), count_filter (by simp)] at hcount

/-- All of `p` is drawn before all of `q`. -/
def DrawnBefore (drawn : List (Primitive U S)) (p q : Primitive U S) : Prop :=
  p ∈ drawn ∧ q ∈ drawn ∧ ∀ i j : Nat, drawn[i]? = some p → drawn[j]? = some q → i < j

/-- What is sorted by order is drawn in that order. -/
theorem drawnBefore_of_order_lt {drawn : List (Primitive U S)}
    (hsorted : drawn.Pairwise (fun a b => a.order ≤ b.order)) {p q : Primitive U S}
    (hp : p ∈ drawn) (hq : q ∈ drawn) (hlt : p.order < q.order) : DrawnBefore drawn p q := by
  refine ⟨hp, hq, ?_⟩
  intro i j hi hj
  by_contra hge
  obtain ⟨hib, rfl⟩ := List.getElem?_eq_some_iff.1 hi
  obtain ⟨hjb, rfl⟩ := List.getElem?_eq_some_iff.1 hj
  rcases Nat.lt_or_eq_of_le (Nat.le_of_not_lt hge) with hji | rfl
  · exact absurd (pairwise_iff_getElem.1 hsorted j i hjb hib hji) (Nat.not_le.2 hlt)
  · exact absurd hlt (Nat.lt_irrefl _)

/-! ## Allocated orders -/

/-- An order, the bounds it was allocated for, and when. -/
structure Allocation (U : Type) where
  position : Nat
  bounds : Bounds U
  order : Nat

section Allocated

variable [AddCommGroup U] [LinearOrder U]

/-- What the bounds tree has given out in `n` operations. -/
structure Allocated (tree : BoundsTree U) (n : Nat) (allocations : List (Allocation U)) :
    Prop where
  holds : tree.Holds (allocations.map (fun a => (a.bounds, a.order)) : List (BoundsTree.Entry U))
  increasing : allocations.Pairwise (fun a b => a.position < b.position ∧
    (a.bounds.intersects b.bounds = true → a.order < b.order))
  position_lt : ∀ a ∈ allocations, a.position < n
  order_pos : ∀ a ∈ allocations, 0 < a.order
  order_le : ∀ a ∈ allocations, a.order ≤ allocations.length
  few : allocations.length ≤ n

theorem allocated_empty : Allocated (.empty : BoundsTree U) 0 [] where
  holds := BoundsTree.Holds.empty
  increasing := List.Pairwise.nil
  position_lt := by simp
  order_pos := by simp
  order_le := by simp
  few := Nat.le_refl 0

variable {tree : BoundsTree U} {n : Nat} {allocations : List (Allocation U)}

theorem Allocated.succ (h : Allocated tree n allocations) :
    Allocated tree (n + 1) allocations where
  holds := h.holds
  increasing := h.increasing
  position_lt := fun a ha => Nat.lt_succ_of_lt (h.position_lt a ha)
  order_pos := h.order_pos
  order_le := h.order_le
  few := Nat.le_succ_of_le h.few

/-- One more order: it is above those for bounds that meet the new ones. -/
theorem Allocated.insert (h : Allocated tree n allocations) (bounds : Bounds U) :
    ∃ tree' order, tree.insert bounds = .ok (tree', order) ∧
      Allocated tree' (n + 1) (allocations ++ [⟨n, bounds, order⟩]) := by
  obtain ⟨tree', hinsert, hholds⟩ := BoundsTree.insert_spec h.holds bounds
  refine ⟨tree', _, hinsert, ?_, ?_, ?_, ?_, ?_, ?_⟩
  · rw [map_append, ← Multiset.coe_add]
    exact hholds
  · refine pairwise_append.2 ⟨h.increasing, pairwise_singleton _ _, ?_⟩
    intro a ha b hb
    rw [mem_singleton.1 hb]
    refine ⟨h.position_lt a ha, ?_⟩
    intro hmeets
    rw [Bounds.intersects_comm] at hmeets
    have hmem : (a.bounds, a.order) ∈
        ((allocations.map (fun a => (a.bounds, a.order)) : List (BoundsTree.Entry U)) : Multiset (BoundsTree.Entry U)) :=
      Multiset.mem_coe.2 (mem_map_of_mem ha)
    exact Nat.lt_succ_of_le (BoundsTree.le_maxOrder hmem hmeets)
  · intro a ha
    rcases mem_append.1 ha with ha | ha
    · exact Nat.lt_succ_of_lt (h.position_lt a ha)
    · rw [mem_singleton.1 ha]
      exact Nat.lt_succ_self n
  · intro a ha
    rcases mem_append.1 ha with ha | ha
    · exact h.order_pos a ha
    · rw [mem_singleton.1 ha]
      exact Nat.succ_pos _
  · intro a ha
    rw [length_append, length_singleton]
    rcases mem_append.1 ha with ha | ha
    · exact Nat.le_succ_of_le (h.order_le a ha)
    · rw [mem_singleton.1 ha]
      apply Nat.succ_le_succ
      apply BoundsTree.maxOrder_le
      intro e he _
      obtain ⟨a, ha, rfl⟩ := mem_map.1 (Multiset.mem_coe.1 he)
      exact h.order_le a ha
  · rw [length_append, length_singleton]
    exact Nat.succ_le_succ h.few

theorem Allocated.order_lt (h : Allocated tree n allocations) {a b : Allocation U}
    (ha : a ∈ allocations) (hb : b ∈ allocations) (hlt : a.position < b.position)
    (hmeets : a.bounds.intersects b.bounds = true) : a.order < b.order := by
  obtain ⟨i, hi, rfl⟩ := getElem_of_mem ha
  obtain ⟨j, hj, rfl⟩ := getElem_of_mem hb
  have hpairs := pairwise_iff_getElem.1 h.increasing
  rcases Nat.lt_trichotomy i j with hij | rfl | hij
  · exact (hpairs i j hi hj hij).2 hmeets
  · exact absurd hlt (Nat.lt_irrefl _)
  · exact absurd hlt (Nat.lt_asymm (hpairs j i hj hi hij).1)

end Allocated

/-! ## Building a scene -/

section Build

variable [AddCommGroup U] [LinearOrder U]

/-- A primitive of which nothing can be seen is not kept. -/
def SceneCall.kept : SceneCall U S → Bool
  | .insertPrimitive primitive => !primitive.clippedBounds.isEmpty
  | _                          => true

namespace Scene

def call (scene : Scene U S) : SceneCall U S → Run (Scene U S)
  | .pushLayer bounds          => scene.pushLayer bounds
  | .popLayer                  => .ok scene.popLayer
  | .insertPrimitive primitive => scene.insertPrimitive primitive

def build (scene : Scene U S) : List (SceneCall U S) → Run (Scene U S)
  | [] => .ok scene
  | c :: calls => do
      let scene ← scene.call c
      scene.build calls

end Scene

/-- The allocations account for the orders of the open layers and of the primitives. -/
structure Painted (scene : Scene U S) (allocations : List (Allocation U)) : Prop where
  allocated : Allocated scene.primitiveBounds scene.paintOperations.length allocations
  layers : List.Forall₂ (fun layer order => Allocation.mk layer.1 layer.2 order ∈ allocations)
    (openLayers scene.paintOperations) scene.layerStack
  assigned : ∀ i p, scene.paintOperations[i]? = some (.primitive p) →
    ∃ a ∈ allocations, a.order = p.order ∧
      (a.position, a.bounds) = allocatedFor scene.paintOperations i p.clippedBounds
  kinds : ∀ kind, scene.ofKind kind
    = (primitivesIn scene.paintOperations).filter (fun p => p.kind = kind)

theorem painted_default : Painted (Scene.default : Scene U S) [] where
  allocated := allocated_empty
  layers := List.Forall₂.nil
  assigned := by
    intro i p h
    cases h
  kinds := by
    intro kind
    cases kind <;> rfl

variable {scene : Scene U S} {allocations allocations' : List (Allocation U)}

section

variable (h : Painted scene allocations)
include h

theorem Painted.assigned_concat (hsub : ∀ a ∈ allocations, a ∈ allocations')
    (hnew : ∀ p, operation = .primitive p → ∃ a ∈ allocations', a.order = p.order ∧
      (a.position, a.bounds)
        = allocatedFor scene.paintOperations scene.paintOperations.length p.clippedBounds)
    (i : Nat) (p : Primitive U S)
    (hi : (scene.paintOperations ++ [operation])[i]? = some (.primitive p)) :
    ∃ a ∈ allocations', a.order = p.order ∧
      (a.position, a.bounds)
        = allocatedFor (scene.paintOperations ++ [operation]) i p.clippedBounds := by
  rcases Nat.lt_or_ge i scene.paintOperations.length with hlt | hge
  · rw [getElem?_append_left hlt] at hi
    obtain ⟨a, ha, horder, hfor⟩ := h.assigned i p hi
    exact ⟨a, hsub a ha, horder, by rw [hfor, allocatedFor_append _ _ hlt.le]⟩
  · -- the operation itself
    have hlast : i = scene.paintOperations.length := by
      have hbound := (List.getElem?_eq_some_iff.1 hi).1
      rw [length_append, length_singleton] at hbound
      omega
    subst hlast
    rw [getElem?_concat_length] at hi
    obtain ⟨a, ha, horder, hfor⟩ := hnew p (Option.some.inj hi)
    exact ⟨a, ha, horder, by rw [hfor, allocatedFor_append _ _ (Nat.le_refl _)]⟩

theorem Painted.pushLayer (bounds : Bounds U) :
    ∃ scene' allocations', scene.pushLayer bounds = .ok scene' ∧
      scene'.paintOperations = scene.paintOperations ++ [.startLayer bounds] ∧
      Painted scene' allocations' := by
  obtain ⟨tree, order, hinsert, hallocated⟩ := h.allocated.insert bounds
  refine ⟨_, allocations ++ [⟨scene.paintOperations.length, bounds, order⟩],
    by rw [Scene.pushLayer, hinsert]; rfl, rfl, ?_, ?_, ?_, ?_⟩
  · rw [length_append, length_singleton]
    exact hallocated
  · rw [openLayers_concat]
    apply rel_append
    · exact h.layers.imp fun _ _ hmem => mem_append_left _ hmem
    · exact List.Forall₂.cons (mem_append_right _ mem_cons_self) List.Forall₂.nil
  · exact h.assigned_concat (fun a ha => mem_append_left _ ha) (fun p hp => by cases hp)
  · intro kind
    rw [primitivesIn_concat, PaintOperation.primitive?, Option.toList_none, append_nil,
      ← h.kinds kind]
    cases kind <;> rfl

theorem Painted.popLayer :
    Painted scene.popLayer allocations where
  allocated := by
    rw [Scene.popLayer, length_append, length_singleton]
    exact h.allocated.succ
  layers := by
    rw [Scene.popLayer, openLayers_concat]
    rw [stepLayers, dropLast_eq_take, dropLast_eq_take, h.layers.length_eq]
    exact List.forall₂_take _ h.layers
  assigned := h.assigned_concat (fun a ha => ha) (fun p hp => by cases hp)
  kinds := by
    intro kind
    rw [Scene.popLayer, primitivesIn_concat, PaintOperation.primitive?, Option.toList_none,
      append_nil, ← h.kinds kind]
    cases kind <;> rfl

/-- The order of a primitive was allocated for the innermost layer, or is for itself. -/
theorem Painted.drawOrder (clippedBounds : Bounds U) :
    ∃ tree order allocations', scene.drawOrder clippedBounds = .ok (tree, order) ∧
      Allocated tree (scene.paintOperations.length + 1) allocations' ∧
      (∀ a ∈ allocations, a ∈ allocations') ∧
      ∃ a ∈ allocations', a.order = order ∧ (a.position, a.bounds)
        = allocatedFor scene.paintOperations scene.paintOperations.length clippedBounds := by
  have hlayers := List.forall₂_reverse_iff.2 h.layers
  rw [Scene.drawOrder, allocatedFor, take_length, ← head?_reverse, ← head?_reverse]
  revert hlayers
  generalize (openLayers scene.paintOperations).reverse = layers
  generalize scene.layerStack.reverse = orders
  intro hlayers
  cases hlayers with
  | nil =>
    obtain ⟨tree, order, hinsert, hallocated⟩ := h.allocated.insert clippedBounds
    exact ⟨tree, order, _, hinsert, hallocated, fun a ha => mem_append_left _ ha,
      _, mem_append_right _ mem_cons_self, rfl, rfl⟩
  | cons hmem _ =>
    exact ⟨_, _, allocations, rfl, h.allocated.succ, fun a ha => ha, _, hmem, rfl, rfl⟩

theorem Painted.insertPrimitive {primitive : Primitive U S}
    (hkept : primitive.clippedBounds.isEmpty = false) :
    ∃ scene' allocations' order id, scene.insertPrimitive primitive = .ok scene' ∧
      scene'.paintOperations
        = scene.paintOperations ++ [.primitive (primitive.assign order id)] ∧
      Painted scene' allocations' := by
  obtain ⟨tree, order, allocations', horder, hallocated, hsub, a, ha, haOrder, haFor⟩ :=
    h.drawOrder primitive.clippedBounds
  obtain ⟨id, hprimitive, hlog, htree, hstack, hkinds⟩ :=
    Scene.store_spec { scene with primitiveBounds := tree } order primitive
  obtain ⟨hassigned, hkind, hbounds, hmask⟩ := primitive.assign_frame order id
  have hclipped : (primitive.assign order id).clippedBounds = primitive.clippedBounds := by
    rw [Primitive.clippedBounds, Primitive.clippedBounds, hbounds, hmask]
  have hinsert : scene.insertPrimitive primitive = .ok
      { ({ scene with primitiveBounds := tree }.store order primitive).1 with
        paintOperations := scene.paintOperations ++ [.primitive (primitive.assign order id)] } := by
    rw [Scene.insertPrimitive, hkept, if_neg Bool.false_ne_true, horder]
    simp only [Exec.ok_bind]
    rw [hprimitive, hlog]
  refine ⟨_, allocations', order, id, hinsert, rfl, ?_, ?_, ?_, ?_⟩
  · rw [htree, length_append, length_singleton]
    exact hallocated
  · rw [openLayers_concat, hstack]
    exact h.layers.imp fun _ _ hmem => hsub _ hmem
  · refine h.assigned_concat hsub ?_
    intro p hp
    cases hp
    exact ⟨a, ha, by rw [haOrder, hassigned], by rw [haFor, hclipped]⟩
  · intro kind
    rw [primitivesIn_concat, PaintOperation.primitive?, Option.toList_some, filter_append,
      ← h.kinds kind]
    have hstored := hkinds kind
    cases kind <;> exact hstored

/-- **A call** is written down when it is kept, and the orders stay accounted for. -/
theorem Painted.call (c : SceneCall U S) :
    ∃ scene' allocations' records, scene.call c = .ok scene' ∧
      List.Forall₂ SceneCall.Records ([c].filter SceneCall.kept) records ∧
      scene'.paintOperations = scene.paintOperations ++ records ∧
      Painted scene' allocations' := by
  cases c with
  | pushLayer bounds =>
    obtain ⟨scene', allocations', hpush, hlog, hpainted⟩ := h.pushLayer bounds
    refine ⟨scene', allocations', [.startLayer bounds], hpush, ?_, hlog, hpainted⟩
    exact List.Forall₂.cons rfl List.Forall₂.nil
  | popLayer =>
    refine ⟨scene.popLayer, allocations, [.endLayer], rfl, ?_, rfl, h.popLayer⟩
    exact List.Forall₂.cons trivial List.Forall₂.nil
  | insertPrimitive primitive =>
    cases hempty : primitive.clippedBounds.isEmpty with
    | true =>
      refine ⟨scene, allocations, [], ?_, ?_, (append_nil _).symm, h⟩
      · rw [Scene.call, Scene.insertPrimitive, hempty, if_pos rfl]
      · rw [filter_singleton, SceneCall.kept, hempty]
        exact List.Forall₂.nil
    | false =>
      obtain ⟨scene', allocations', order, id, hinsert, hlog, hpainted⟩ := h.insertPrimitive hempty
      refine ⟨scene', allocations', _, hinsert, ?_, hlog, hpainted⟩
      rw [filter_singleton, SceneCall.kept, hempty]
      exact List.Forall₂.cons ⟨order, id, rfl⟩ List.Forall₂.nil

end

/-- **A run.**  Building never fails, writes the kept calls down in turn, and accounts for
    every order. -/
theorem Painted.build (calls : List (SceneCall U S)) (h : Painted scene allocations) :
    ∃ scene' allocations' records, scene.build calls = .ok scene' ∧
      List.Forall₂ SceneCall.Records (calls.filter SceneCall.kept) records ∧
      scene'.paintOperations = scene.paintOperations ++ records ∧
      Painted scene' allocations' := by
  induction calls generalizing scene allocations with
  | nil => exact ⟨scene, allocations, [], rfl, List.Forall₂.nil, (append_nil _).symm, h⟩
  | cons c calls ih =>
    obtain ⟨scene₁, allocations₁, records₁, hcall, hrecords₁, hlog₁, hpainted₁⟩ := h.call c
    obtain ⟨scene₂, allocations₂, records₂, hbuild, hrecords₂, hlog₂, hpainted₂⟩ := ih hpainted₁
    refine ⟨scene₂, allocations₂, records₁ ++ records₂, ?_, ?_, ?_, hpainted₂⟩
    · rw [Scene.build, hcall]
      exact hbuild
    · rw [← singleton_append, filter_append]
      exact rel_append hrecords₁ hrecords₂
    · rw [hlog₂, hlog₁, append_assoc]

/-! ## What is painted over -/

/-- The primitive `q` at `j` is painted over the primitive `p` at `i`: they meet, and the
    order of `q` was allocated after `p` was inserted.  A layer has its primitives inside. -/
structure PaintedOver (log : List (PaintOperation U S)) (i j : Nat) (p q : Primitive U S) :
    Prop where
  first : log[i]? = some (.primitive p)
  second : log[j]? = some (.primitive q)
  lt : i < j
  intersects : p.clippedBounds.intersects q.clippedBounds = true
  later : ∀ layer, (openLayers (log.take j)).getLast? = some layer → i < layer.1
  first_inside : ∀ layer, (openLayers (log.take i)).getLast? = some layer →
    p.clippedBounds.Inside layer.2
  second_inside : ∀ layer, (openLayers (log.take j)).getLast? = some layer →
    q.clippedBounds.Inside layer.2

variable {log : List (PaintOperation U S)} {i : Nat} {p : Primitive U S} {bounds : Bounds U}

theorem inside_allocatedFor {position : Nat} {clippedBounds : Bounds U}
    (h : ∀ layer, (openLayers (log.take position)).getLast? = some layer →
      clippedBounds.Inside layer.2) :
    clippedBounds.Inside (allocatedFor log position clippedBounds).2 := by
  rw [allocatedFor]
  cases hlast : (openLayers (log.take position)).getLast? with
  | none => exact Bounds.Inside.refl _
  | some layer => exact h layer hlast

/-- What is painted over has a lower draw order. -/
theorem Painted.order_lt (h : Painted scene allocations) {j : Nat} {q : Primitive U S}
    (hover : PaintedOver scene.paintOperations i j p q) : p.order < q.order := by
  obtain ⟨a, ha, haOrder, haFor⟩ := h.assigned i p hover.first
  obtain ⟨b, hb, hbOrder, hbFor⟩ := h.assigned j q hover.second
  obtain ⟨haPosition, haBounds⟩ := Prod.mk.inj haFor
  obtain ⟨hbPosition, hbBounds⟩ := Prod.mk.inj hbFor
  rw [← haOrder, ← hbOrder]
  apply h.allocated.order_lt ha hb
  · have hle := allocatedFor_le scene.paintOperations i p.clippedBounds
    have hlt : i < (allocatedFor scene.paintOperations j q.clippedBounds).1 := by
      rw [allocatedFor]
      cases hlast : (openLayers (scene.paintOperations.take j)).getLast? with
      | none => exact hover.lt
      | some layer => exact hover.later layer hlast
    rw [haPosition, hbPosition]
    exact Nat.lt_of_le_of_lt hle hlt
  · -- the bounds that the orders were allocated for meet, as those inside them do
    rw [haBounds, hbBounds]
    have hmeets := Bounds.intersects_of_inside hover.intersects
      (inside_allocatedFor hover.second_inside)
    rw [Bounds.intersects_comm] at hmeets ⊢
    exact Bounds.intersects_of_inside hmeets (inside_allocatedFor hover.first_inside)

theorem Painted.order_le (h : Painted scene allocations)
    (hp : p ∈ primitivesIn scene.paintOperations) : p.order ≤ scene.paintOperations.length := by
  obtain ⟨operation, hmem, hoperation⟩ := mem_filterMap.1 hp
  obtain ⟨i, hi⟩ := mem_iff_getElem?.1 hmem
  cases operation with
  | startLayer bounds => cases hoperation
  | endLayer => cases hoperation
  | primitive p' =>
    cases hoperation
    obtain ⟨a, ha, horder, _⟩ := h.assigned i p hi
    rw [← horder]
    exact (h.allocated.order_le a ha).trans h.allocated.few

omit [AddCommGroup U] [LinearOrder U] in
theorem openLayers_eq_nil
    (h : ∀ operation ∈ log, ∃ p, operation = .primitive p) : openLayers log = [] := by
  induction log using List.reverseRecOn with
  | nil => rfl
  | append_singleton log operation ih =>
    obtain ⟨p, rfl⟩ := h operation (mem_append_right _ mem_cons_self)
    rw [openLayers_concat, ih fun operation hmem => h operation (mem_append_left _ hmem)]
    rfl

/-- The operations stack primitives on the same bounds, without layers. -/
def Stacked (log : List (PaintOperation U S)) (bounds : Bounds U) : Prop :=
  ∀ operation ∈ log, ∃ p, operation = .primitive p ∧ p.clippedBounds = bounds

theorem Stacked.getElem?
    (h : Stacked log bounds) (hi : i < log.length) :
    ∃ p, log[i]? = some (.primitive p) := by
  obtain ⟨p, hp, _⟩ := h _ (getElem_mem hi)
  exact ⟨p, by rw [← hp]; exact getElem?_eq_getElem hi⟩

/-- Each of them is painted over the one before. -/
theorem Stacked.paintedOver
    (h : Stacked log bounds) (hbounds : bounds.intersects bounds = true)
    {q : Primitive U S} (hp : log[i]? = some (.primitive p))
    (hq : log[i + 1]? = some (.primitive q)) : PaintedOver log i (i + 1) p q := by
  have hnone : ∀ k layer, (openLayers (log.take k)).getLast? ≠ some layer := by
    intro k layer
    rw [openLayers_eq_nil, getLast?_nil]
    · exact (Option.some_ne_none layer).symm
    · intro operation hmem
      obtain ⟨p, hp, _⟩ := h operation (mem_of_mem_take hmem)
      exact ⟨p, hp⟩
  have hclipped : ∀ {k : Nat} {r : Primitive U S},
      log[k]? = some (.primitive r) → r.clippedBounds = bounds := by
    intro k r hk
    obtain ⟨_, hr, hsame⟩ := h _ (mem_of_getElem? hk)
    cases hr
    exact hsame
  constructor
  · exact hp
  · exact hq
  · exact Nat.lt_succ_self i
  · rw [hclipped hp, hclipped hq]
    exact hbounds
  · exact fun layer hlayer => absurd hlayer (hnone _ layer)
  · exact fun layer hlayer => absurd hlayer (hnone _ layer)
  · exact fun layer hlayer => absurd hlayer (hnone _ layer)

/-- So their orders grow with every one. -/
theorem Painted.lt_order_of_stacked (h : Painted scene allocations)
    (hstacked : Stacked scene.paintOperations bounds)
    (hbounds : bounds.intersects bounds = true) (i : Nat) (p : Primitive U S)
    (hi : scene.paintOperations[i]? = some (.primitive p)) : i < p.order := by
  induction i generalizing p with
  | zero =>
    obtain ⟨a, ha, horder, _⟩ := h.assigned 0 p hi
    rw [← horder]
    exact h.allocated.order_pos a ha
  | succ i ih =>
    have hlt := (List.getElem?_eq_some_iff.1 hi).1
    obtain ⟨p', hi'⟩ := hstacked.getElem? (Nat.lt_of_succ_lt hlt)
    have hover := hstacked.paintedOver hbounds hi' hi
    exact Nat.lt_of_le_of_lt (ih p' hi') (h.order_lt hover)

/-- Calls that are all the same, and kept. -/
theorem records_replicate {n : Nat} {c : SceneCall U S} (hkept : c.kept = true)
    {records : List (PaintOperation U S)}
    (h : List.Forall₂ SceneCall.Records ((List.replicate n c).filter SceneCall.kept) records) :
    records.length = n ∧ ∀ operation ∈ records, c.Records operation := by
  rw [filter_replicate_of_pos hkept] at h
  have hlength := h.length_eq
  rw [length_replicate] at hlength
  refine ⟨hlength.symm, ?_⟩
  intro operation hmem
  obtain ⟨i, hi, rfl⟩ := getElem_of_mem hmem
  have hget := h.get (by rw [length_replicate, hlength]; exact hi) hi
  simpa using hget

end Build

/-- A pixel. -/
def pixel : Bounds ℤ := ⟨⟨0, 0⟩, ⟨1, 1⟩⟩

def quadOn (bounds : Bounds ℤ) : Primitive ℤ Unit :=
  .quad ⟨0, bounds, bounds, ()⟩

def shadowOn (bounds : Bounds ℤ) : Primitive ℤ Unit :=
  .shadow ⟨0, bounds, bounds, ()⟩

/-- A quad, and over it a layer with a shadow. -/
def shadowOverQuad : List (SceneCall ℤ Unit) :=
  [.insertPrimitive (quadOn pixel), .pushLayer pixel, .insertPrimitive (shadowOn pixel), .popLayer]

/-- Of `u32::MAX` quads on one pixel the last one gets the order of the sentinel. -/
theorem Scene.exists_sentinel :
    ∃ scene i j p q,
      Scene.default.build (List.replicate u32Max (.insertPrimitive (quadOn pixel))) = .ok scene ∧
      scene.finish.shadows = [] ∧ PaintedOver scene.paintOperations i j p q ∧
      q ∈ scene.finish.ofKind .quad ∧ u32Max ≤ q.order := by
  obtain ⟨scene, allocations, records, hbuild, hrecords, hlog, hpainted⟩ :=
    painted_default.build (List.replicate u32Max (SceneCall.insertPrimitive (quadOn pixel)))
  obtain ⟨hlength, hquads⟩ := records_replicate (by decide) hrecords
  rw [show (Scene.default : Scene ℤ Unit).paintOperations = [] from rfl, nil_append] at hlog
  rw [← hlog] at hlength hquads
  have hmeets : pixel.intersects pixel = true := by decide
  have hstacked : Stacked scene.paintOperations pixel := by
    intro operation hmem
    obtain ⟨order, id, rfl⟩ := records_insertPrimitive (hquads operation hmem)
    have hclipped : pixel.intersect pixel = pixel := by decide
    exact ⟨_, rfl, hclipped⟩
  have hshadows : scene.finish.shadows = [] := by
    have hnone : (primitivesIn scene.paintOperations).filter (fun p => p.kind = .shadow) = [] := by
      rw [filter_eq_nil_iff]
      intro p hp
      obtain ⟨operation, hmem, hoperation⟩ := mem_filterMap.1 hp
      obtain ⟨order, id, rfl⟩ := records_insertPrimitive (hquads operation hmem)
      cases hoperation
      exact Bool.false_ne_true
    have hperm := (scene.finish_spec .shadow).1
    rw [hpainted.kinds, hnone] at hperm
    exact map_eq_nil_iff.1 hperm.eq_nil
  -- the last two quads
  have hmax : u32Max = 4294967293 + 2 := rfl
  obtain ⟨p, hp⟩ := hstacked.getElem? (show 4294967293 < _ by omega)
  obtain ⟨q, hq⟩ := hstacked.getElem? (show 4294967293 + 1 < _ by omega)
  refine ⟨scene, _, _, p, q, hbuild, hshadows, hstacked.paintedOver hmeets hp hq, ?_, ?_⟩
  · have hin : q ∈ primitivesIn scene.paintOperations :=
      mem_filterMap.2 ⟨_, mem_of_getElem? hq, rfl⟩
    obtain ⟨order, id, hrecord⟩ :=
      records_insertPrimitive (hquads _ (mem_of_getElem? hq))
    cases hrecord
    rw [((scene.finish_spec .quad).1).mem_iff, hpainted.kinds]
    exact mem_filter.2 ⟨hin, rfl⟩
  · have := hpainted.lt_order_of_stacked hstacked hmeets _ q hq
    omega

end Gpui
