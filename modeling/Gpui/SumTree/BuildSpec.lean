import Gpui.SumTree.Build

/-! # SumTree: what building and updating do -/

set_option linter.unusedSectionVars false

namespace Gpui

open List

open Exec (Returns Ensures Next loop ok_bind)
open Chunks (chunks)

variable {T S : Type}

namespace SumTree

variable [Summary S] [Item T S]

theorem nodeCapacity_pos : 0 < nodeCapacity := by decide

/-- The leaf of a block of items. -/
def mkLeaf (items : List T) : SumTree T S :=
  .leaf (itemsSum items) items (items.map Item.summary)

/-- The parent of a block of nodes. -/
def mkParent (height : Nat) (childTrees : List (SumTree T S)) : SumTree T S :=
  .internal height (sum (childTrees.map summary)) (childTrees.map summary) childTrees

variable [LawfulSummary S]

/-! ## One level -/

theorem sumFromFirst_of_ne_nil {ss : List S} (hne : ss ≠ []) : sumFromFirst ss = .ok (sum ss) := by
  cases ss with
  | nil => exact absurd rfl hne
  | cons s ss => simp [sumFromFirst, sum, LawfulSummary.zero_add]

theorem leafNode_eq {items : List T} (hne : items ≠ []) (hle : items.length ≤ nodeCapacity) :
    leafNode (S := S) items = .ok (mkLeaf items) := by
  unfold leafNode
  rw [ArrayVec.collect_of_le hle, ok_bind, ArrayVec.collect_of_le (by simpa using hle),
    ok_bind, sumFromFirst_of_ne_nil (by simpa using hne)]
  rfl

theorem parLeafNodes_eq (iter : List T) :
    parLeafNodes (S := S) iter = .ok ((chunks nodeCapacity iter).map mkLeaf) :=
  Exec.mapM_eq_ok fun b hb =>
    leafNode_eq (Chunks.mem_chunks nodeCapacity_pos iter b hb).1
      (Chunks.mem_chunks nodeCapacity_pos iter b hb).2

theorem leafNodes_eq (iter : List T) :
    leafNodes (S := S) iter = .ok ((chunks nodeCapacity iter).map mkLeaf) := by
  have h : Returns (· = (chunks nodeCapacity iter).map mkLeaf) (leafNodes (S := S) iter) := by
    refine Exec.loop_returns
      (fun (s : List (SumTree T S) × List T) =>
        s.1 ++ (chunks nodeCapacity s.2).map mkLeaf = (chunks nodeCapacity iter).map mkLeaf)
      (fun s => s.2.length) ?_ _ _ (by simp) (Nat.lt_succ_self _)
    rintro ⟨nodes, rest⟩ hinv
    by_cases hr : rest = []
    · subst hr
      simpa using hinv
    · have hpos := List.length_pos_of_ne_nil hr
      have hne : rest.take nodeCapacity ≠ [] :=
        List.ne_nil_of_length_pos (by simp only [List.length_take, nodeCapacity, treeBase]; omega)
      simp only [List.isEmpty_iff, if_neg hr]
      rw [leafNode_eq hne (by simp only [List.length_take]; omega)]
      refine ⟨_, rfl, ?_, ?_⟩
      · simpa [Chunks.chunks_of_ne_nil nodeCapacity_pos hr] using hinv
      · simp only [List.length_drop, nodeCapacity, treeBase]; omega
  obtain ⟨nodes, hrun, rfl⟩ := h
  exact hrun

/-- The parent under construction, whose children so far are `cs`. -/
def pending (height : Nat) (cs : List (SumTree T S)) : Option (SumTree T S) :=
  if cs = [] then none else some (mkParent height cs)

theorem addChild_eq (height : Nat) (ps cs : List (SumTree T S)) (c : SumTree T S)
    (hlt : cs.length < nodeCapacity) :
    addChild height (ps, pending height cs) c =
      if cs.length + 1 = nodeCapacity then .ok (ps ++ [mkParent height (cs ++ [c])], none)
      else .ok (ps, pending height (cs ++ [c])) := by
  have hget : (pending height cs).getD (.internal height Summary.zero [] []) =
      mkParent height cs := by
    unfold pending
    split
    · next h => subst h; rfl
    · rfl
  have hsum : Summary.addSummary (sum (cs.map summary)) c.summary =
      sum ((cs ++ [c]).map summary) := by simp [sum]
  unfold addChild
  simp only [hget, mkParent, hsum]
  rw [ArrayVec.push_of_lt (by simpa using hlt), ArrayVec.push_of_lt hlt]
  simp only [ok_bind, length_append, length_singleton]
  split
  · simp
  · simp [pending, mkParent]

theorem foldlM_addChild (height : Nat) : ∀ (nodes ps cs : List (SumTree T S)),
    cs.length < nodeCapacity →
      Returns (fun r => r.1 ++ r.2.toList =
          ps ++ (chunks nodeCapacity (cs ++ nodes)).map (mkParent height))
        (nodes.foldlM (addChild height) (ps, pending height cs)) := by
  intro nodes
  induction nodes with
  | nil =>
    intro ps cs hlt
    refine ⟨_, rfl, ?_⟩
    by_cases hcs : cs = []
    · simp [pending, hcs]
    · simp [pending, hcs, Chunks.chunks_of_length_le hcs (Nat.le_of_lt hlt)]
  | cons c nodes ih =>
    intro ps cs hlt
    rw [foldlM_cons, addChild_eq height ps cs c hlt]
    by_cases hfull : cs.length + 1 = nodeCapacity
    · rw [if_pos hfull, ok_bind]
      refine (ih (ps ++ [mkParent height (cs ++ [c])]) [] nodeCapacity_pos).imp fun r hr => ?_
      have hcons : cs ++ c :: nodes = (cs ++ [c]) ++ nodes := by simp
      rw [hr, hcons, Chunks.chunks_append (b := cs ++ [c]) nodeCapacity_pos (by simpa using hfull)]
      simp
    · rw [if_neg hfull, ok_bind]
      refine (ih ps (cs ++ [c]) (by simp only [length_append, length_singleton]; omega)).imp
        fun r hr => ?_
      rw [hr, append_assoc]
      rfl

theorem parentNodes_eq (height : Nat) (nodes : List (SumTree T S)) :
    parentNodes height nodes = .ok ((chunks nodeCapacity nodes).map (mkParent height)) := by
  obtain ⟨⟨ps, cur⟩, hrun, hr⟩ := foldlM_addChild height nodes [] [] nodeCapacity_pos
  have hrun' : nodes.foldlM (addChild height) ([], none) = .ok (ps, cur) := hrun
  unfold parentNodes
  rw [hrun', ok_bind]
  simpa using hr

theorem parParentNodes_eq (height : Nat) (nodes : List (SumTree T S)) :
    parParentNodes height nodes = .ok ((chunks nodeCapacity nodes).map (mkParent height)) := by
  refine Exec.mapM_eq_ok fun b hb => ?_
  obtain ⟨hne, hle⟩ := Chunks.mem_chunks nodeCapacity_pos nodes b hb
  unfold parParentNode
  rw [ArrayVec.collect_of_le hle, ok_bind, ArrayVec.collect_of_le (by simpa using hle),
    ok_bind, sumFromFirst_of_ne_nil (by simpa using hne)]
  rfl

/-- Both constructors build the same tree, or fail alike. -/
theorem fromParIter_eq_fromIter (iter : List T) :
    fromParIter (S := S) iter = fromIter iter := by
  have hlevel : (parParentNodes : Nat → List (SumTree T S) → _) = parentNodes := by
    funext height nodes
    rw [parParentNodes_eq, parentNodes_eq]
  unfold fromParIter fromIter
  rw [parLeafNodes_eq, leafNodes_eq, hlevel]

/-! ## All levels -/

theorem toListForest_map_mkLeaf (bs : List (List T)) :
    toListForest (bs.map (mkLeaf (S := S))) = bs.flatten := by
  induction bs with
  | nil => simp
  | cons b bs ih => simp [ih, mkLeaf]

theorem toListForest_map_mkParent (height : Nat) (bs : List (List (SumTree T S))) :
    toListForest (bs.map (mkParent height)) = toListForest bs.flatten := by
  induction bs with
  | nil => simp
  | cons b bs ih => simp [ih, mkParent]

/-- The rows `stack` goes through: nodes of one height that hold the list. -/
structure Row (l : List T) (height : Nat) (nodes : List (SumTree T S)) : Prop where
  wf    : ∀ c ∈ nodes, Wf height c
  items : toListForest nodes = l
  level : height ≤ 255
  short : l.length ≤ nodeCapacity ^ 256 → nodes.length ≤ nodeCapacity ^ (255 - height)

theorem Row.leaves (l : List T) :
    Row (S := S) l 0 ((chunks nodeCapacity l).map mkLeaf) := by
  refine ⟨?_, ?_, by omega, fun hle => ?_⟩
  · intro c hc
    obtain ⟨b, hb, rfl⟩ := mem_map.mp hc
    exact .leaf (Chunks.mem_chunks nodeCapacity_pos l b hb).1
      (Chunks.mem_chunks nodeCapacity_pos l b hb).2
  · rw [toListForest_map_mkLeaf, Chunks.flatten_chunks nodeCapacity_pos]
  · rw [length_map]
    exact Chunks.length_chunks_le nodeCapacity_pos l _ (by rwa [← Nat.pow_succ'])

theorem Row.parents {l : List T} {height : Nat} {nodes : List (SumTree T S)}
    (row : Row l height nodes) (hlt : height < 255) :
    Row l (height + 1) ((chunks nodeCapacity nodes).map (mkParent (height + 1))) := by
  refine ⟨?_, ?_, by omega, fun hle => ?_⟩
  · intro c hc
    obtain ⟨b, hb, rfl⟩ := mem_map.mp hc
    obtain ⟨hne, hlen⟩ := Chunks.mem_chunks nodeCapacity_pos nodes b hb
    exact Wf.ofChildren
      (fun d hd => row.wf d (Chunks.mem_of_mem_chunks nodeCapacity_pos hb hd)) hne hlen
  · rw [toListForest_map_mkParent, Chunks.flatten_chunks nodeCapacity_pos, row.items]
  · rw [length_map]
    refine Chunks.length_chunks_le nodeCapacity_pos nodes _ ?_
    rw [← Nat.pow_succ', show (255 - (height + 1)).succ = 255 - height by omega]
    exact row.short hle

/-- **`from_iter`** builds a well-formed tree of the list; it only panics when
    the tree gets more than 255 levels, which takes more than `12 ^ 256` items. -/
theorem fromIter_spec (l : List T) :
    Ensures (fun t => WellFormed t ∧ t.toList = l)
      (fun e => e = .addOverflow ∧ nodeCapacity ^ 256 < l.length) (fromIter (S := S) l) := by
  have hstack : Ensures
      (fun nodes => ∃ h, Row l h nodes ∧ nodes.length ≤ 1)
      (fun e => e = .addOverflow ∧ nodeCapacity ^ 256 < l.length)
      (stack (S := S) parentNodes ((chunks nodeCapacity l).map mkLeaf)) := by
    refine Exec.loop_ensures (fun (s : Nat × List (SumTree T S)) => Row l s.1 s.2)
      (fun s => s.2.length) ?_ _ _ (Row.leaves l) (Nat.lt_succ_self _)
    rintro ⟨height, nodes⟩ row
    simp only at row ⊢
    by_cases hlen : 1 < nodes.length
    · rw [if_pos hlen]
      unfold succHeight
      by_cases hlt : height < 255
      · simp only [if_pos hlt, ok_bind, parentNodes_eq]
        refine ⟨row.parents hlt, ?_⟩
        dsimp only
        rw [length_map]
        exact Chunks.length_chunks_lt (by decide) hlen
      · rw [if_neg hlt]
        refine ⟨rfl, Nat.lt_of_not_le fun hle => ?_⟩
        have hshort := row.short hle
        rw [show 255 - height = 0 by omega, Nat.pow_zero] at hshort
        omega
    · rw [if_neg hlen]
      exact ⟨height, row, by omega⟩
  unfold fromIter
  rw [leafNodes_eq, ok_bind]
  refine hstack.bind ?_
  rintro nodes ⟨h, row, hlen⟩
  match nodes, row, hlen with
  | [], row, _ => exact ⟨wellFormed_new, by simpa [new] using row.items⟩
  | [node], row, _ =>
    exact ⟨(row.wf node (by simp)).wellFormed row.level, by simpa using row.items⟩

/-! ## Updating an edge -/

/-- The list with its last item rewritten by `f`. -/
def mapLast (f : T → T) (l : List T) : List T :=
  l.dropLast ++ (l.getLast?.map f).toList

/-- The list with its first item rewritten by `f`. -/
def mapFirst (f : T → T) (l : List T) : List T :=
  (l.head?.map f).toList ++ l.tail

theorem mapLast_append_singleton (f : T → T) (l : List T) (x : T) :
    mapLast f (l ++ [x]) = l ++ [f x] := by simp [mapLast]

theorem mapLast_append (f : T → T) (l : List T) {k : List T} (hne : k ≠ []) :
    mapLast f (l ++ k) = l ++ mapLast f k := by
  obtain ⟨k, x, rfl⟩ : ∃ k' x, k = k' ++ [x] :=
    ⟨k.dropLast, k.getLast hne, (dropLast_append_getLast hne).symm⟩
  rw [← append_assoc, mapLast_append_singleton, mapLast_append_singleton, append_assoc]

theorem mapFirst_append (f : T → T) {l : List T} (k : List T) (hne : l ≠ []) :
    mapFirst f (l ++ k) = mapFirst f l ++ k := by
  obtain ⟨x, l, rfl⟩ := exists_cons_of_ne_nil hne
  simp [mapFirst]

theorem updateLastChild_append (f : T → T) (l : List (SumTree T S)) (c : SumTree T S) :
    updateLastChild f (l ++ [c]) =
      (updateLastRecursive f c).map (fun r => (l ++ [r.1], r.2)) := by
  induction l with
  | nil =>
    simp only [nil_append, updateLastChild]
    cases updateLastRecursive f c <;> rfl
  | cons d l ih =>
    obtain ⟨e, l', hl'⟩ := exists_cons_of_ne_nil (concat_ne_nil c l)
    rw [hl'] at ih
    rw [cons_append, hl', updateLastChild]
    simp only [ih]
    cases updateLastRecursive f c <;> rfl

/-- What both recursive updates return on a node: the node with the new items,
    and its new summary for the parent. -/
structure Updated (h : Nat) (items : List T) (r : SumTree T S × Option S) : Prop where
  wf      : Wf h r.1
  items   : r.1.toList = items
  summary : r.2 = some r.1.summary

theorem updateLastRecursive_spec (f : T → T) {h : Nat} : ∀ {t : SumTree T S}, Wf h t →
    Returns (Updated h (mapLast f t.toList)) (updateLastRecursive f t) := by
  induction h with
  | zero =>
    intro t wf
    cases wf with
    | @leaf its hne hle =>
      obtain ⟨its, x, rfl⟩ : ∃ k y, its = k ++ [y] :=
        ⟨its.dropLast, its.getLast hne, (dropLast_append_getLast hne).symm⟩
      simp only [updateLastRecursive, getLast?_append, map_append, map_cons,
        map_nil, getLast?_singleton, Option.some_or, ArrayVec.setLast_append,
        ok_bind]
      refine ⟨_, rfl, ?_, ?_, rfl⟩
      · have hleaf : Wf 0 (mkLeaf (S := S) (its ++ [f x])) := .leaf (by simp) (by simpa using hle)
        simpa [mkLeaf, itemsSum] using hleaf
      · simp [mapLast_append_singleton]
  | succ h ih =>
    intro t wf
    cases wf with
    | @internal _ cts hne hle hw =>
      obtain ⟨l, c, rfl⟩ : ∃ l c, cts = l ++ [c] :=
        ⟨cts.dropLast, cts.getLast hne, (dropLast_append_getLast hne).symm⟩
      have wfc := hw c (by simp)
      obtain ⟨⟨c', s⟩, hrun, hwf', hitems, hs⟩ := ih wfc
      simp only at hwf' hitems hs
      subst hs
      have hw' : ∀ d ∈ l ++ [c'], Wf h d := Wf.ofAppend hw hwf'
      rw [updateLastRecursive, updateLastChild_append, hrun]
      simp only [Except.map, ok_bind, map_append, map_cons, map_nil,
        ArrayVec.setLast_append]
      refine ⟨_, rfl, ?_, ?_, rfl⟩
      · have := Wf.ofChildren hw' (by simp) (by simpa using hle)
        simpa using this
      · simp only [toList_internal, toListForest_append, toListForest_cons, toListForest_nil,
          append_nil, hitems, mapLast_append f _ wfc.toList_ne_nil]

theorem updateFirstRecursive_spec (f : T → T) {h : Nat} : ∀ {t : SumTree T S}, Wf h t →
    Returns (Updated h (mapFirst f t.toList)) (updateFirstRecursive f t) := by
  induction h with
  | zero =>
    intro t wf
    cases wf with
    | @leaf its hne hle =>
      obtain ⟨x, its, rfl⟩ := exists_cons_of_ne_nil hne
      refine ⟨_, rfl, ?_, ?_, rfl⟩
      · have hleaf : Wf 0 (mkLeaf (S := S) (f x :: its)) := .leaf (by simp) (by simpa using hle)
        simpa [mkLeaf, itemsSum] using hleaf
      · simp [mapFirst]
  | succ h ih =>
    intro t wf
    cases wf with
    | @internal _ cts hne hle hw =>
      obtain ⟨first, rest, rfl⟩ := exists_cons_of_ne_nil hne
      have wfc := hw first (by simp)
      obtain ⟨⟨c', s⟩, hrun, hwf', hitems, hs⟩ := ih wfc
      simp only at hwf' hitems hs
      subst hs
      have hw' : ∀ c ∈ c' :: rest, Wf h c := fun c hc =>
        (mem_cons.mp hc).elim (fun hc => hc ▸ hwf') (fun hc => hw c (by simp [hc]))
      rw [updateFirstRecursive, hrun]
      refine ⟨_, rfl, ?_, ?_, rfl⟩
      · exact Wf.ofChildren hw' (by simp) (by simpa using hle)
      · simp only [toList_internal, toListForest_cons, hitems,
          mapFirst_append f _ wfc.toList_ne_nil]

variable {t : SumTree T S}

theorem updateLast_spec (f : T → T) (wf : WellFormed t) :
    Returns (fun r => WellFormed r ∧ r.toList = mapLast f t.toList) (updateLast t f) := by
  rcases wf with rfl | ⟨h, hle, wf⟩
  · exact ⟨new, rfl, wellFormed_new, rfl⟩
  · obtain ⟨⟨r, s⟩, hrun, hwf, hitems, -⟩ := updateLastRecursive_spec f wf
    unfold updateLast
    rw [hrun]
    exact ⟨r, rfl, hwf.wellFormed hle, hitems⟩

theorem updateFirst_spec (f : T → T) (wf : WellFormed t) :
    Returns (fun r => WellFormed r ∧ r.toList = mapFirst f t.toList) (updateFirst t f) := by
  rcases wf with rfl | ⟨h, hle, wf⟩
  · exact ⟨new, rfl, wellFormed_new, rfl⟩
  · obtain ⟨⟨r, s⟩, hrun, hwf, hitems, -⟩ := updateFirstRecursive_spec f wf
    unfold updateFirst
    rw [hrun]
    exact ⟨r, rfl, hwf.wellFormed hle, hitems⟩

/-! ## `push`, `extend` -/

theorem wellFormed_singleton (x : T) :
    WellFormed (.leaf (Item.summary x) [x] [Item.summary x] : SumTree T S) := by
  have hsum : itemsSum (S := S) [x] = Item.summary x := sum_singleton _
  have hwf : Wf 0 (.leaf (itemsSum [x]) [x] ([x].map Item.summary) : SumTree T S) :=
    .leaf (by simp) one_le_nodeCapacity
  rw [hsum] at hwf
  exact hwf.wellFormed (by omega)

theorem push_spec (wf : WellFormed t) (x : T) :
    Ensures (fun r => WellFormed r ∧ r.toList = t.toList ++ [x] ∧ r.height ≤ t.height + 1)
      (fun e => e = .addOverflow ∧ 255 ≤ t.height) (push t x) := by
  refine (append_spec wf (wellFormed_singleton x)).imp ?_ ?_
  · intro r appended
    have hheight := appended.height
    simp only [SumTree.height, Nat.max_eq_left (Nat.zero_le _)] at hheight
    exact ⟨appended.wf, appended.items, hheight⟩
  · rintro e ⟨rfl, he⟩
    simp only [SumTree.height, Nat.max_eq_left (Nat.zero_le _)] at he
    exact ⟨rfl, he⟩

theorem fromItem_spec (x : T) :
    Returns (fun t => WellFormed t ∧ t.toList = [x]) (fromItem (S := S) x) :=
  ⟨.leaf (Item.summary x) [x] [Item.summary x], rfl, wellFormed_singleton x, by simp⟩

/-- `extend` appends the items at the end.  It can only panic where `from_iter` or
    `append` do. -/
theorem extend_spec (wf : WellFormed t) (l : List T) :
    Ensures (fun r => WellFormed r ∧ r.toList = t.toList ++ l)
      (fun e => e = .addOverflow ∧ (nodeCapacity ^ 256 < l.length ∨
        ∃ u, fromIter l = .ok u ∧ 255 ≤ max t.height u.height)) (extend t l) := by
  have hiter := fromIter_spec (S := S) l
  unfold extend
  match hu : fromIter l with
  | .error e =>
    obtain ⟨rfl, he⟩ := hiter.of_error hu
    exact ⟨rfl, .inl he⟩
  | .ok u =>
    obtain ⟨wfu, hitems⟩ := hiter.of_ok hu
    refine (append_spec wf wfu).imp ?_ ?_
    · intro r appended
      exact ⟨appended.wf, by rw [appended.items, hitems]⟩
    · rintro e ⟨rfl, he⟩
      exact ⟨rfl, .inr ⟨u, rfl, he⟩⟩

theorem parExtend_eq_extend (t : SumTree T S) (l : List T) : parExtend t l = extend t l := by
  unfold parExtend extend
  rw [fromParIter_eq_fromIter]

end SumTree

end Gpui
