import Gpui.Window.TaffyLayout

/-! # The layout engine: bounds in the window

    The bounds of a node are those of the sum of the locations up to its root, each edge rounded
    to a device pixel.  They do not depend on what was asked before.

    * **`layoutBounds_coherent`**: if only roots are computed and only nodes of computed trees are
      asked for, every such node has its bounds, and edges are ordered as they were before they
      were rounded. -/

namespace Gpui

open List

namespace TaffyLayout

variable {X : Type} [Field X] [LinearOrder X] [FloorRing X]
variable {tree : Forest LayoutId} {scaleFactor : X}

/-! ### Section 1: Bounds -/

section Bounds

variable (tree) (layouts : LayoutId → Layout X) (id : LayoutId)

omit [LinearOrder X] [FloorRing X] in
/-- The sum of the locations of a node and its ancestors. -/
def near : Point X where
  x := ((tree.ancestors id).map (fun node => (layouts node).location.x)).sum
  y := ((tree.ancestors id).map (fun node => (layouts node).location.y)).sum

omit [LinearOrder X] [FloorRing X] in
def far : Point X where
  x := (near tree layouts id).x + (layouts id).size.width
  y := (near tree layouts id).y + (layouts id).size.height

inductive Side where
  | left
  | top
  | right
  | bottom

omit [LinearOrder X] [FloorRing X] in
/-- Where an edge of a node is in the window, in device pixels. -/
def edge : Side → X
  | .left   => (near tree layouts id).x
  | .top    => (near tree layouts id).y
  | .right  => (far tree layouts id).x
  | .bottom => (far tree layouts id).y

omit [LinearOrder X] [FloorRing X] in
def edgeOf (bounds : Gpui.Bounds X) : Side → X
  | .left   => bounds.origin.x
  | .top    => bounds.origin.y
  | .right  => bounds.bottomRight.x
  | .bottom => bounds.bottomRight.y

/-- The bounds have the rounded edges of the node. -/
def Snapped (scaleFactor : X) (bounds : Gpui.Bounds X) : Prop :=
  ∀ side, edgeOf bounds side = roundHalfTowardZero (edge tree layouts id side) / scaleFactor

end Bounds

/-- A node lies inside of another one, going by their edges. -/
def Inside (edges edges' : Side → X) : Prop :=
  edges' .left ≤ edges .left ∧ edges' .top ≤ edges .top ∧ edges .right ≤ edges' .right ∧
    edges .bottom ≤ edges' .bottom

/-! ### Section 2: Operations -/

/-- The layout of a node in the last computation of a tree that it belongs to. -/
def latest (tree : Forest LayoutId) (scaleFactor : X) (ops : List (Op X)) (id : LayoutId) :
    Option (Layout X) :=
  ops.reverse.findSome? (fun op => match op with
    | .computeLayout root available taffy =>
        if root ∈ tree.ancestors id then
          some (taffy ⟨scaleSpace scaleFactor available.width,
            scaleSpace scaleFactor available.height⟩ id)
        else none
    | .layoutBounds _ => none)

/-- The node belongs to a tree that was computed. -/
def Computed (tree : Forest LayoutId) (ops : List (Op X)) (id : LayoutId) : Prop :=
  ∃ root available taffy, .computeLayout root available taffy ∈ ops ∧ root ∈ tree.ancestors id

/-- Layouts are computed of roots, and bounds asked for of nodes of computed trees. -/
def WellUsed (tree : Forest LayoutId) (ops : List (Op X)) : Prop :=
  (∀ root available taffy, .computeLayout root available taffy ∈ ops → tree.parent root = none) ∧
    ∀ before after id, ops = before ++ .layoutBounds id :: after → Computed tree before id

/-- What holds after some operations. -/
structure Coherent (tree : Forest LayoutId) (scaleFactor : X) (ops : List (Op X))
    (s : TaffyLayoutEngine X) : Prop where
  latest  : ∀ id, Computed tree ops id → latest tree scaleFactor ops id = some (s.layouts id)
  snapped : ∀ id, Computed tree ops id → ∃ bounds s',
    s.layoutBounds tree scaleFactor id = .ok (bounds, s') ∧
      Snapped tree s.layouts id scaleFactor bounds
  /-- Edges do not change their order, and those in one place stay in one place. -/
  ordered : ∀ id id' bounds bounds' side side',
    Snapped tree s.layouts id scaleFactor bounds →
      Snapped tree s.layouts id' scaleFactor bounds' →
        (edge tree s.layouts id side ≤ edge tree s.layouts id' side' →
            edgeOf bounds side ≤ edgeOf bounds' side') ∧
          (edge tree s.layouts id side = edge tree s.layouts id' side' →
            edgeOf bounds side = edgeOf bounds' side')
  inside  : ∀ id id' bounds bounds',
    Snapped tree s.layouts id scaleFactor bounds →
      Snapped tree s.layouts id' scaleFactor bounds' →
        Inside (edge tree s.layouts id) (edge tree s.layouts id') →
          Inside (edgeOf bounds) (edgeOf bounds')

/-! ### Section 3: Rounding -/

section Rounding

variable [IsStrictOrderedRing X]

theorem roundHalfTowardZero_eq (value : X) :
    roundHalfTowardZero value =
      if value < 0 then -(⌈-value - 1 / (2 : Nat)⌉ : X) else (⌈value - 1 / (2 : Nat)⌉ : X) := by
  have hhalf : (((0.5 : ℚ) : X)) = 1 / (2 : Nat) := by norm_num
  unfold roundHalfTowardZero
  rw [hhalf]
  by_cases hneg : value < 0
  · rw [if_pos hneg, if_pos hneg, abs_of_neg hneg]
  · rw [if_neg hneg, if_neg hneg, abs_of_nonneg (not_lt.mp hneg)]

theorem ceil_sub_half_nonneg {value : X} (h : 0 ≤ value) :
    (0 : X) ≤ (⌈value - 1 / (2 : Nat)⌉ : X) := by
  have hlt : ((-1 : ℤ) : X) < value - 1 / (2 : Nat) := by
    linarith
  have hceil := Int.lt_ceil.mpr hlt
  have hnonneg : 0 ≤ ⌈value - 1 / (2 : Nat)⌉ := by omega
  exact_mod_cast hnonneg

/-- Rounding does not change the order of two numbers. -/
theorem roundHalfTowardZero_mono {a b : X} (h : a ≤ b) :
    roundHalfTowardZero a ≤ roundHalfTowardZero b := by
  rw [roundHalfTowardZero_eq, roundHalfTowardZero_eq]
  by_cases ha : a < 0
  · rw [if_pos ha]
    by_cases hb : b < 0
    · rw [if_pos hb]
      have hceil : ⌈-b - 1 / (2 : Nat)⌉ ≤ ⌈-a - 1 / (2 : Nat)⌉ := Int.ceil_le_ceil (by linarith)
      exact neg_le_neg (Int.cast_le.mpr hceil)
    · -- on both sides of zero
      rw [if_neg hb]
      have hlow := ceil_sub_half_nonneg (neg_nonneg.mpr ha.le)
      have hhigh := ceil_sub_half_nonneg (not_lt.mp hb)
      linarith
  · have hb : ¬ b < 0 := not_lt.mpr ((not_lt.mp ha).trans h)
    rw [if_neg ha, if_neg hb]
    exact Int.cast_le.mpr (Int.ceil_le_ceil (by linarith))

theorem Snapped.ordered {layouts : LayoutId → Layout X} {id id' : LayoutId}
    {bounds bounds' : Gpui.Bounds X} (hscale : 0 < scaleFactor)
    (h : Snapped tree layouts id scaleFactor bounds)
    (h' : Snapped tree layouts id' scaleFactor bounds') {side side' : Side}
    (hle : edge tree layouts id side ≤ edge tree layouts id' side') :
    edgeOf bounds side ≤ edgeOf bounds' side' := by
  rw [h side, h' side']
  exact div_le_div_of_nonneg_right (roundHalfTowardZero_mono hle) hscale.le

end Rounding

/-! ### Section 4: Sums of locations -/

section Sums

variable {layouts layouts' : LayoutId → Layout X} {id p : LayoutId}

section

omit [LinearOrder X] [FloorRing X]

theorem near_root (h : tree.parent id = none) : near tree layouts id = (layouts id).location := by
  unfold near
  simp [Forest.ancestors_root h]

theorem near_child (h : tree.parent id = some p) :
    near tree layouts id = addPoint (near tree layouts p) (layouts id).location := by
  unfold near addPoint
  simp [Forest.ancestors_child h, add_comm]

theorem near_congr (h : ∀ node ∈ tree.ancestors id, layouts' node = layouts node) :
    near tree layouts' id = near tree layouts id := by
  unfold near
  rw [map_congr_left (fun node hnode => congrArg (·.location.x) (h node hnode)),
    map_congr_left (fun node hnode => congrArg (·.location.y) (h node hnode))]

end

theorem Snapped.congr {bounds : Gpui.Bounds X}
    (h : ∀ node ∈ tree.ancestors id, layouts' node = layouts node)
    (hsnapped : Snapped tree layouts id scaleFactor bounds) :
    Snapped tree layouts' id scaleFactor bounds := by
  have hedge : edge tree layouts' id = edge tree layouts id := by
    funext side
    unfold edge far
    rw [near_congr h, h id (Forest.mem_ancestors_self id)]
  intro side
  rw [hedge]
  exact hsnapped side

end Sums

/-! ### Section 5: Questions -/

/-- What is cached is right, and is so for known nodes only. -/
def Caches (tree : Forest LayoutId) (scaleFactor : X) (known : LayoutId → Prop)
    (s : TaffyLayoutEngine X) : Prop :=
  ∀ id bounds, s.absoluteLayoutBounds id = some bounds →
    known id ∧ s.absoluteOuterOrigins id = some (near tree s.layouts id) ∧
      Snapped tree s.layouts id scaleFactor bounds

theorem snapped_remember (s : TaffyLayoutEngine X) (id : LayoutId) :
    Snapped tree s.layouts id scaleFactor
      (s.remember scaleFactor id (near tree s.layouts id)).1 := by
  intro side
  -- the far edges are the near ones and the lengths
  cases side with
  | left => rfl
  | top => rfl
  | right =>
    show roundHalfTowardZero (near tree s.layouts id).x / scaleFactor +
      (_ - roundHalfTowardZero (near tree s.layouts id).x) / scaleFactor = _
    rw [← add_div, add_sub_cancel]
    rfl
  | bottom =>
    show roundHalfTowardZero (near tree s.layouts id).y / scaleFactor +
      (_ - roundHalfTowardZero (near tree s.layouts id).y) / scaleFactor = _
    rw [← add_div, add_sub_cancel]
    rfl

/-- The bounds of a node are cached, and nothing else changes. -/
structure Answered (tree : Forest LayoutId) (scaleFactor : X) (known : LayoutId → Prop)
    (s : TaffyLayoutEngine X) (id : LayoutId) (bounds : Gpui.Bounds X)
    (s' : TaffyLayoutEngine X) : Prop where
  snapped  : Snapped tree s.layouts id scaleFactor bounds
  caches   : Caches tree scaleFactor known s'
  cached   : s'.absoluteLayoutBounds id = some bounds
  layouts  : s'.layouts = s.layouts
  computed : s'.computedLayouts = s.computedLayouts

variable {s : TaffyLayoutEngine X} {ops : List (Op X)}

theorem answered_remember {known : LayoutId → Prop}
    (h : Caches tree scaleFactor known s) {id : LayoutId} (hknown : known id)
    {origin : Point X} (horigin : origin = near tree s.layouts id) :
    Answered tree scaleFactor known s id (s.remember scaleFactor id origin).1
      (s.remember scaleFactor id origin).2 := by
  subst horigin
  constructor
  · exact snapped_remember s id
  · intro other bounds hother
    by_cases hid : other = id
    · subst hid
      have hself : (s.remember scaleFactor other (near tree s.layouts other)).2.absoluteLayoutBounds
          other = some (s.remember scaleFactor other (near tree s.layouts other)).1 :=
        Function.update_self ..
      rw [hself] at hother
      cases hother
      exact ⟨hknown, Function.update_self .., snapped_remember s other⟩
    · have hold := (Function.update_of_ne hid ..).symm.trans hother
      obtain ⟨hother', horigin, hsnapped⟩ := h other bounds hold
      exact ⟨hother', (Function.update_of_ne hid ..).trans horigin, hsnapped⟩
  · exact Function.update_self ..
  · rfl
  · rfl

/-- The bounds of a known node are found on its way to the root. -/
theorem layoutBounds_spec {known : LayoutId → Prop}
    (hclosed : ∀ p id, tree.parent id = some p → known id → known p) (id : LayoutId) :
    ∀ s : TaffyLayoutEngine X, Caches tree scaleFactor known s → known id →
      ∃ bounds s', s.layoutBounds tree scaleFactor id = .ok (bounds, s') ∧
        Answered tree scaleFactor known s id bounds s' := by
  -- induction from the roots down
  induction id using tree.downward with
  | hroot id hid =>
    intro s h hknown
    unfold TaffyLayoutEngine.layoutBounds
    split
    · next bounds hbounds =>
      exact ⟨bounds, s, rfl, (h id bounds hbounds).2.2, h, hbounds, rfl, rfl⟩
    · split
      · exact ⟨_, _, rfl, answered_remember h hknown (near_root hid).symm⟩
      · next p hp => rw [hid] at hp; cases hp
  | hchild p id hid ih =>
    intro s h hknown
    unfold TaffyLayoutEngine.layoutBounds
    split
    · next bounds hbounds =>
      exact ⟨bounds, s, rfl, (h id bounds hbounds).2.2, h, hbounds, rfl, rfl⟩
    · split
      · next hp => rw [hid] at hp; cases hp
      · next q hq =>
        rw [hid] at hq
        cases hq
        obtain ⟨bounds, s', hasked, hanswered⟩ := ih s h (hclosed p id hid hknown)
        have hparent := (hanswered.caches p bounds hanswered.cached).2.1
        rw [hanswered.layouts] at hparent
        rw [hasked, Exec.ok_bind]
        rw [hparent]
        have horigin : addPoint (near tree s.layouts p) (s.layouts id).location =
            near tree s'.layouts id := by
          rw [hanswered.layouts]
          exact (near_child hid).symm
        have hremember := answered_remember hanswered.caches hknown horigin
        refine ⟨_, _, rfl, ?_, hremember.caches, hremember.cached, ?_, ?_⟩
        · exact hremember.snapped.congr (fun node _ => congrFun hanswered.layouts.symm node)
        · exact hremember.layouts.trans hanswered.layouts
        · exact hremember.computed.trans hanswered.computed

/-! ### Section 6: Computations -/

omit [Field X] [LinearOrder X] [FloorRing X] in
theorem foldl_forget (nodes : List LayoutId) (s : TaffyLayoutEngine X) :
    (nodes.foldl TaffyLayoutEngine.forget s).layouts = s.layouts ∧
      (nodes.foldl TaffyLayoutEngine.forget s).computedLayouts = s.computedLayouts ∧
      ∀ id bounds, (nodes.foldl TaffyLayoutEngine.forget s).absoluteLayoutBounds id = some bounds →
        id ∉ nodes ∧ s.absoluteLayoutBounds id = some bounds ∧
          (nodes.foldl TaffyLayoutEngine.forget s).absoluteOuterOrigins id =
            s.absoluteOuterOrigins id := by
  induction nodes generalizing s with
  | nil => exact ⟨rfl, rfl, fun id bounds h => ⟨not_mem_nil, h, rfl⟩⟩
  | cons node nodes ih =>
    obtain ⟨hlayouts, hcomputed, hcached⟩ := ih (s.forget node)
    refine ⟨hlayouts, hcomputed, ?_⟩
    intro id bounds h
    obtain ⟨hnot, hbefore, horigin⟩ := hcached id bounds h
    have hne : id ≠ node := by
      intro heq
      subst heq
      cases (Function.update_self ..).symm.trans hbefore
    refine ⟨?_, (Function.update_of_ne hne ..).symm.trans hbefore, ?_⟩
    · intro hmem
      exact (mem_cons.mp hmem).elim hne hnot
    · exact horigin.trans (Function.update_of_ne hne ..)

structure Inv (tree : Forest LayoutId) (scaleFactor : X) (ops : List (Op X))
    (s : TaffyLayoutEngine X) : Prop where
  latest   : ∀ id, Computed tree ops id → latest tree scaleFactor ops id = some (s.layouts id)
  computed : ∀ id, id ∈ s.computedLayouts ↔
    ∃ available taffy, .computeLayout id available taffy ∈ ops
  caches   : Caches tree scaleFactor (Computed tree ops) s

section

omit [Field X] [LinearOrder X] [FloorRing X]

theorem WellUsed.of_concat {op : Op X} (h : WellUsed tree (ops ++ [op])) :
    WellUsed tree ops := by
  constructor
  · intro root available taffy hop
    exact h.1 root available taffy (mem_append_left _ hop)
  · intro before after id heq
    apply h.2 before (after ++ [op])
    rw [heq, append_assoc, cons_append]

theorem Computed.concat {id : LayoutId} (h : Computed tree ops id)
    (op : Op X) : Computed tree (ops ++ [op]) id := by
  obtain ⟨root, available, taffy, hop, hroot⟩ := h
  exact ⟨root, available, taffy, mem_append_left _ hop, hroot⟩

/-- The parent of a node belongs to the same tree. -/
theorem Computed.parent (hused : WellUsed tree ops) (p id : LayoutId)
    (hp : tree.parent id = some p) (h : Computed tree ops id) : Computed tree ops p := by
  obtain ⟨root, available, taffy, hop, hroot⟩ := h
  have hne : root ≠ id := by
    intro heq
    have hnone := hused.1 root available taffy hop
    rw [heq, hp] at hnone
    cases hnone
  exact ⟨root, available, taffy, hop, ((Forest.mem_ancestors_child hp).mp hroot).resolve_left hne⟩

end

/-- After a computation, what is cached belongs to other trees. -/
theorem inv_computeLayout
    (h : Inv tree scaleFactor ops s) {root : LayoutId} {available : Size (AvailableSpace X)}
    {taffy : TaffyLayoutEngine.Taffy X}
    (hused : WellUsed tree (ops ++ [.computeLayout root available taffy])) :
    Inv tree scaleFactor (ops ++ [.computeLayout root available taffy])
      (s.computeLayout tree scaleFactor root available taffy) := by
  have hroot : tree.parent root = none :=
    hused.1 root available taffy (mem_append_right _ (mem_singleton_self _))
  obtain ⟨hlayouts, hcomputed, hforgotten⟩ := foldl_forget (tree.visited [root]) s
  -- what the caches and the roots are before taffy is asked
  have hstart : ∃ s₁ : TaffyLayoutEngine X,
      s.computeLayout tree scaleFactor root available taffy = { s₁ with
        layouts := fun node => if root ∈ tree.ancestors node then
          taffy ⟨scaleSpace scaleFactor available.width,
            scaleSpace scaleFactor available.height⟩ node else s.layouts node } ∧
      (∀ id, id ∈ s₁.computedLayouts ↔ id = root ∨ id ∈ s.computedLayouts) ∧
      ∀ id bounds, s₁.absoluteLayoutBounds id = some bounds → root ∉ tree.ancestors id ∧
        s.absoluteLayoutBounds id = some bounds ∧
          s₁.absoluteOuterOrigins id = s.absoluteOuterOrigins id := by
    unfold TaffyLayoutEngine.computeLayout
    by_cases hagain : root ∈ s.computedLayouts
    · rw [if_pos hagain, Forest.walk_eq_foldl]
      refine ⟨_, by dsimp only; rw [hlayouts], ?_, ?_⟩
      · intro id
        rw [hcomputed]
        constructor
        · exact .inr
        · intro hid
          obtain rfl | hid := hid
          · exact hagain
          · exact hid
      · intro id bounds hid
        obtain ⟨hnot, hrest⟩ := hforgotten id bounds hid
        refine ⟨?_, hrest⟩
        intro hbelow
        exact hnot (Forest.mem_visited.mpr ⟨root, mem_singleton_self root, hbelow⟩)
    · rw [if_neg hagain]
      refine ⟨_, rfl, fun id => mem_cons, ?_⟩
      intro id bounds hid
      refine ⟨?_, hid, rfl⟩
      -- no node of the tree was known
      intro hbelow
      obtain ⟨⟨root', available', taffy', hop, hroot'⟩, _⟩ := h.caches id bounds hid
      have hparent' := hused.1 root' available' taffy' (mem_append_left _ hop)
      obtain rfl := Forest.root_unique hroot hparent' hbelow hroot'
      exact hagain ((h.computed root).mpr ⟨available', taffy', hop⟩)
  obtain ⟨s₁, heq, hmem, hcached⟩ := hstart
  rw [heq]
  constructor
  · intro id hid
    unfold TaffyLayout.latest
    rw [reverse_append, reverse_singleton, singleton_append, findSome?_cons]
    dsimp only
    by_cases hbelow : root ∈ tree.ancestors id
    · rw [if_pos hbelow, if_pos hbelow]
    · rw [if_neg hbelow, if_neg hbelow]
      apply h.latest id
      obtain ⟨root', available', taffy', hop, hroot'⟩ := hid
      obtain hop | hop := mem_append.mp hop
      · exact ⟨root', available', taffy', hop, hroot'⟩
      · cases mem_singleton.mp hop
        exact absurd hroot' hbelow
  · intro id
    rw [hmem, h.computed]
    constructor
    · intro hid
      obtain rfl | ⟨available', taffy', hop⟩ := hid
      · exact ⟨available, taffy, mem_append_right _ (mem_singleton_self _)⟩
      · exact ⟨available', taffy', mem_append_left _ hop⟩
    · intro hid
      obtain ⟨available', taffy', hop⟩ := hid
      obtain hop | hop := mem_append.mp hop
      · exact .inr ⟨available', taffy', hop⟩
      · cases mem_singleton.mp hop
        exact .inl rfl
  · intro id bounds hid
    obtain ⟨hother, hbefore, horigin⟩ := hcached id bounds hid
    obtain ⟨hknown, hnear, hsnapped⟩ := h.caches id bounds hbefore
    have hsame : ∀ node ∈ tree.ancestors id,
        (if root ∈ tree.ancestors node then
          taffy ⟨scaleSpace scaleFactor available.width,
            scaleSpace scaleFactor available.height⟩ node
        else s.layouts node) = s.layouts node := by
      intro node hnode
      exact if_neg (fun hbelow => hother (Forest.mem_ancestors_trans hbelow hnode))
    refine ⟨hknown.concat _, ?_, hsnapped.congr hsame⟩
    rw [horigin, hnear, near_congr hsame]

/-! ### Section 7: The result -/

theorem inv_step {op : Op X}
    (h : Inv tree scaleFactor ops s) (hused : WellUsed tree (ops ++ [op])) :
    ∃ s', step tree scaleFactor s op = .ok s' ∧ Inv tree scaleFactor (ops ++ [op]) s' := by
  cases op with
  | computeLayout root available taffy => exact ⟨_, rfl, inv_computeLayout h hused⟩
  | layoutBounds id =>
    obtain ⟨bounds, s', hasked, hanswered⟩ := layoutBounds_spec
      (Computed.parent hused.of_concat) id s h.caches (hused.2 ops [] id rfl)
    refine ⟨s', by dsimp only [step]; rw [hasked, Exec.ok_bind], ?_⟩
    have hmem : ∀ root available taffy,
        (.computeLayout root available taffy : Op X) ∈ ops ++ [.layoutBounds id] →
          .computeLayout root available taffy ∈ ops := by
      intro root available taffy hop
      obtain hop | hop := mem_append.mp hop
      · exact hop
      · cases mem_singleton.mp hop
    constructor
    · intro other hother
      unfold TaffyLayout.latest
      rw [reverse_append, reverse_singleton, singleton_append,
        findSome?_cons]
      rw [hanswered.layouts]
      obtain ⟨root, available, taffy, hop, hroot⟩ := hother
      exact h.latest other ⟨root, available, taffy, hmem _ _ _ hop, hroot⟩
    · intro other
      rw [hanswered.computed, h.computed]
      constructor
      · intro hother
        obtain ⟨available, taffy, hop⟩ := hother
        exact ⟨available, taffy, mem_append_left _ hop⟩
      · intro hother
        obtain ⟨available, taffy, hop⟩ := hother
        exact ⟨available, taffy, hmem _ _ _ hop⟩
    · intro other bounds' hother
      obtain ⟨hknown, hrest⟩ := hanswered.caches other bounds' hother
      exact ⟨hknown.concat _, hrest⟩

theorem inv_run (initial : LayoutId → Layout X) (ops : List (Op X)) (hused : WellUsed tree ops) :
    ∃ s, run tree scaleFactor initial ops = .ok s ∧ Inv tree scaleFactor ops s := by
  induction ops using List.reverseRecOn with
  | nil =>
    refine ⟨_, rfl, ?_, ?_, ?_⟩
    · intro id hid
      obtain ⟨root, available, taffy, hop, _⟩ := hid
      cases hop
    · intro id
      constructor
      · intro hid
        cases hid
      · intro hid
        obtain ⟨available, taffy, hop⟩ := hid
        cases hop
    · intro id bounds hid
      cases hid
  | append_singleton ops op ih =>
    obtain ⟨s, hrun, hinv⟩ := ih hused.of_concat
    obtain ⟨s', hstep, hinv'⟩ := inv_step hinv hused
    refine ⟨s', ?_, hinv'⟩
    unfold run at hrun ⊢
    rw [foldlM_append, hrun, Exec.ok_bind, foldlM_cons, hstep]
    rfl

/-- **Bounds are the rounded edges of the latest layouts**, whatever was asked before, and
    rounding keeps the order of edges. -/
theorem layoutBounds_coherent [IsStrictOrderedRing X] (hscale : 0 < scaleFactor)
    (initial : LayoutId → Layout X) (ops : List (Op X)) (hused : WellUsed tree ops) :
    ∃ s, run tree scaleFactor initial ops = .ok s ∧ Coherent tree scaleFactor ops s := by
  obtain ⟨s, hrun, hinv⟩ := inv_run initial ops hused
  refine ⟨s, hrun, hinv.latest, ?_, ?_, ?_⟩
  · intro id hid
    obtain ⟨bounds, s', hasked, hanswered⟩ :=
      layoutBounds_spec (Computed.parent hused) id s hinv.caches hid
    exact ⟨bounds, s', hasked, hanswered.snapped⟩
  · intro id id' bounds bounds' side side' hbounds hbounds'
    constructor
    · exact hbounds.ordered hscale hbounds'
    · intro heq
      rw [hbounds side, hbounds' side', heq]
  · intro id id' bounds bounds' hbounds hbounds' hinside
    obtain ⟨hleft, htop, hright, hbottom⟩ := hinside
    exact ⟨hbounds'.ordered hscale hbounds hleft, hbounds'.ordered hscale hbounds htop,
      hbounds.ordered hscale hbounds' hright, hbounds.ordered hscale hbounds' hbottom⟩

/-- A root with one child. -/
def pair : Forest LayoutId where
  parent id := if id = 1 then some 0 else none
  children id := if id = 0 then [1] else []
  depth id := if id = 1 then 1 else 0
  weight id := if id = 0 then 2 else 1
  mem_children p c := by
    by_cases hp : p = 0
    · simp [hp]
    · simp [hp, Ne.symm hp]
  depth_lt p c h := by
    rw [Option.ite_none_right_eq_some] at h
    cases h.2
    rw [if_pos h.1]
    exact Nat.zero_lt_one
  weight_lt p := by
    by_cases hp : p = 0
    · simp [hp]
    · simp [hp]

/-- The child is in the middle of the space, three pixels wide. -/
def centered : TaffyLayoutEngine.Taffy ℚ := fun available id =>
  let width := (available.width.definite?).getD 0
  if id = 1 then ⟨⟨(width - 3) / 2, 0⟩, ⟨3, 1⟩⟩ else ⟨⟨0, 0⟩, ⟨width, 1⟩⟩

/-- A tree that is computed twice, and asked for its child in between and afterwards. -/
theorem layoutBounds_coherent_twice :
    ∃ s, run pair (3 / 2) (fun _ => ⟨⟨0, 0⟩, ⟨0, 0⟩⟩)
        [.computeLayout 0 ⟨.definite 4, .maxContent⟩ centered, .layoutBounds 1,
          .computeLayout 0 ⟨.definite 5, .maxContent⟩ centered, .layoutBounds 1] = .ok s ∧
      Coherent pair (3 / 2)
        [.computeLayout 0 ⟨.definite 4, .maxContent⟩ centered, .layoutBounds 1,
          .computeLayout 0 ⟨.definite 5, .maxContent⟩ centered, .layoutBounds 1] s := by
  have hbelow : 0 ∈ pair.ancestors 1 := by
    have hparent : pair.parent 1 = some 0 := rfl
    exact (Forest.mem_ancestors_child hparent).mpr (.inr (Forest.mem_ancestors_self 0))
  refine layoutBounds_coherent (by norm_num) _ _ ⟨?_, ?_⟩
  · intro root available taffy hop
    simp only [mem_cons, not_mem_nil, or_false, reduceCtorEq, false_or,
      Op.computeLayout.injEq] at hop
    obtain ⟨rfl, _⟩ | ⟨rfl, _⟩ := hop
    · rfl
    · rfl
  · intro before after id heq
    -- the first operation computes the tree
    cases before with
    | nil => cases heq
    | cons op before =>
      have hid : id = 1 := by
        have hmem : (.layoutBounds id : Op ℚ) ∈ op :: before ++ .layoutBounds id :: after :=
          mem_append_right _ mem_cons_self
        rw [← heq] at hmem
        simpa using hmem
      obtain ⟨rfl, _⟩ := List.cons.inj heq
      rw [hid]
      exact ⟨0, _, _, mem_cons_self, hbelow⟩

end TaffyLayout

end Gpui
