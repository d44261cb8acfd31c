import Gpui.SumTree.ForwardSpec

/-! # SumTree: walking backward

    `search_backward` finds the position of every node anew from the entry above
    it on the stack. -/

set_option linter.unusedSectionVars false

namespace Gpui

open List

open Exec (Returns Ensures Next loop ok_bind pure_eq_ok)

variable {T S D : Type} [Summary S] [Item T S] [Dimension D S]

namespace Cursor

variable {P : List T → D → Prop} {root : SumTree T S} {filterNode : S → Bool}

/-! ## The state of the loop -/

/-- The number of children or items of the top node that are still to be visited. -/
def backIndex (e : StackEntry T S D) (descend : Bool) : Nat :=
  if descend then e.index + 1 else e.index

/-- Between two passes of a backward loop, the items `before` are still to be
    searched. -/
inductive Backward (P : List T → D → Prop) (root : SumTree T S) :
    List (StackEntry T S D) → Bool → List T → List T → Prop where
  | inside {rest : List (StackEntry T S D)} {h : Nat} {pre post left right : List T}
      {sub : SumTree T S} {e : StackEntry T S D} {descend : Bool}
      (path : Path P root rest h pre sub post) (tree : e.tree = sub)
      (cut : Cut sub (backIndex e descend) left right) :
      Backward P root (e :: rest) descend (pre ++ left) (right ++ post)
  | atFront {descend : Bool} : Backward P root [] descend [] root.toList

variable {h : Nat} {pre post left right behind skipped ahead : List T} {e : StackEntry T S D}
variable {rest : List (StackEntry T S D)} {descend : Bool} {s : S} {position : D}
variable {c : Cursor T S D} {sub : SumTree T S} {stack : List (StackEntry T S D)} {css : List S}
  {l r : List (SumTree T S)} {its : List T} {iss : List S} {st : WalkState T S D}

/-- Having visited the child that a path leads to. -/
theorem Backward.ofPath (path : Path P root stack h pre sub post) :
    Backward P root stack false pre (sub.toList ++ post) := by
  cases path with
  | root => simpa using Backward.atFront
  | @child stack h pre post s css l r sub e path tree index position =>
    have hcut : Cut (.internal (h + 1) s css (l ++ (sub :: r))) (backIndex e false)
        (SumTree.toListForest l) (SumTree.toListForest (sub :: r)) := by
      rw [show backIndex e false = l.length from index]
      exact .internal _ _
    have := Backward.inside path tree hcut
    simpa [append_assoc] using this

/-- The work left in a backward loop. -/
def backCost : List (StackEntry T S D) → Bool → Nat
  | [], _ => 0
  | e :: stack, descend =>
      (match e.tree with
        | .internal _ _ _ cts => SumTree.sizeForest (cts.take (backIndex e descend)) + 1
        | .leaf ..            => backIndex e descend + 1) + backwardCost stack

theorem backCost_false (stack : List (StackEntry T S D)) :
    backCost stack false = backwardCost stack := by
  cases stack <;> rfl

theorem backCost_internal (htree : e.tree = .internal h s css (l ++ r))
    (hindex : backIndex e descend = l.length) :
    backCost (e :: rest) descend = SumTree.sizeForest l + 1 + backwardCost rest := by
  simp only [backCost, htree, hindex, take_left]

theorem backCost_leaf (htree : e.tree = .leaf s its iss) :
    backCost (e :: rest) descend = backIndex e descend + 1 + backwardCost rest := by
  simp only [backCost, htree]

/-- The node on top of the stack, entered from its end, leaves less work than its size. -/
theorem backCost_lt
    (rest : List (StackEntry T S D)) (cut : Cut e.tree (backIndex e descend) left right) :
    backCost (e :: rest) descend < e.tree.size + backwardCost rest := by
  match htree : e.tree with
  | .internal h s css cts =>
    rw [htree] at cut
    obtain ⟨l, r, rfl, hl, -, -⟩ := cut.internal_inv
    rw [backCost_internal htree hl, SumTree.size_internal, SumTree.sizeForest_append]
    omega
  | .leaf s its iss =>
    rw [htree] at cut
    obtain ⟨l, r, rfl, hl, -, -⟩ := cut.leaf_inv
    rw [backCost_leaf htree, SumTree.size_leaf, length_append]
    omega

theorem Backward.cost_lt {before after : List T}
    (backward : Backward P root stack descend before after) :
    backCost stack descend < root.size := by
  cases backward with
  | @inside rest h pre post left right sub e descend path tree cut =>
    have hle := path.backwardCost_le
    subst tree
    have := backCost_lt rest cut
    omega
  | atFront =>
    have := root.two_le_size
    simp only [backCost]
    omega

/-- A search for an item in front of the cursor has skipped the items `skipped`. -/
structure SkippedBack (filterNode : S → Bool) (behind remaining skipped : List T) : Prop where
  split : behind = remaining ++ skipped
  turned : ∀ x ∈ skipped, filterNode (Item.summary x) = false

theorem SkippedBack.append {remaining passed : List T}
    (skip : SkippedBack filterNode behind remaining skipped) (hsplit : remaining = left ++ passed)
    (hpassed : ∀ x ∈ passed, filterNode (Item.summary x) = false) :
    SkippedBack filterNode behind left (passed ++ skipped) := by
  refine ⟨by rw [skip.split, hsplit, append_assoc], fun x hx => ?_⟩
  rcases mem_append.mp hx with hx | hx
  · exact hpassed x hx
  · exact skip.turned x hx

/-- What a pass of a backward search keeps.  At the front of the tree the
    position is known as well. -/
structure BackwardKept (P : List T → D → Prop) (root : SumTree T S) (filterNode : S → Bool)
    (behind ahead remaining skipped : List T) (st : WalkState T S D) : Prop where
  skip : SkippedBack filterNode behind remaining skipped
  backward : Backward P root st.stack st.descend remaining (skipped ++ ahead)
  position : st.stack = [] → P [] st.position

/-- How a backward search ends. -/
def BackwardEnded (P : List T → D → Prop) (root : SumTree T S) (filterNode : S → Bool)
    (behind ahead : List T) (st : WalkState T S D) : Prop :=
  (∃ remaining x skipped, SkippedBack filterNode behind (remaining ++ [x]) skipped ∧
      filterNode (Item.summary x) = true ∧
      Resting P root st.stack remaining (x :: (skipped ++ ahead)) ∧ P remaining st.position) ∨
    SkippedBack filterNode behind [] behind ∧ st.stack = [] ∧ behind ++ ahead = root.toList ∧
      P [] st.position

/-- What a pass of a backward search does. -/
def BackwardPass (P : List T → D → Prop) (root : SumTree T S) (filterNode : S → Bool)
    (behind ahead : List T) (st : WalkState T S D) :
    Next (WalkState T S D) (WalkState T S D) → Prop :=
  Exec.Pass (fun st => ∃ remaining skipped,
      BackwardKept P root filterNode behind ahead remaining skipped st)
    (fun st => backCost st.stack st.descend) (backCost st.stack st.descend)
    (BackwardEnded P root filterNode behind ahead)

/-! ## One pass -/

/-- Where a pass points its entry if something is left before it. -/
theorem index_of_backIndex {n : Nat} (hindex : backIndex e descend = n + 1) :
    ¬ (¬ descend = true ∧ e.index = 0) ∧ (if descend then e.index else e.index - 1) = n := by
  cases descend <;> simp [backIndex] at hindex ⊢ <;> omega

/-- A pass over an internal node turns to the child `c` before the cursor. -/
theorem backwardStep_eq_internal (filterNode : S → Bool) {c : SumTree T S}
    (htree : e.tree = .internal h s ((l ++ c :: r).map SumTree.summary) (l ++ c :: r))
    (hindex : backIndex e descend = l.length + 1) :
    backwardStep filterNode ⟨e :: rest, position, descend⟩ = (
      let position := (l.map SumTree.summary).foldl Dimension.addSummary (parentPosition rest)
      if filterNode c.summary then do
        let last ← checkedSub c.childSummaries.length 1
        let stack ← pushEntry (⟨e.tree, l.length, position⟩ :: rest) ⟨c, last, Dimension.zero S⟩
        pure (.again ⟨stack, position, true⟩)
      else
        pure (.again ⟨⟨e.tree, l.length, position⟩ :: rest, position, false⟩)) := by
  obtain ⟨hne, hidx⟩ := index_of_backIndex hindex
  have hget : getIndex ((l ++ c :: r).map SumTree.summary) l.length = .ok c.summary := by
    simp [getIndex]
  have hchild : getIndex (l ++ c :: r) l.length = .ok c := by simp [getIndex]
  have htake : ((l ++ c :: r).map SumTree.summary).take l.length = l.map SumTree.summary := by
    rw [← map_take, take_left]
  have hlt : ¬ ((l ++ c :: r).map SumTree.summary).length < l.length := by simp
  unfold backwardStep
  simp only [hne, if_false, hidx, htree, SumTree.childSummaries, hlt, hget, htake, ok_bind,
    pure_eq_ok, hchild]
  rfl

/-- A pass over a leaf turns to the item `x` before the cursor. -/
theorem backwardStep_eq_leaf (filterNode : S → Bool) {l r : List T} {x : T}
    (htree : e.tree = .leaf s (l ++ x :: r) ((l ++ x :: r).map Item.summary))
    (hindex : backIndex e descend = l.length + 1) :
    backwardStep filterNode ⟨e :: rest, position, descend⟩ = (
      let position := (l.map Item.summary).foldl Dimension.addSummary (parentPosition rest)
      if filterNode (Item.summary x) then
        pure (.done ⟨⟨e.tree, l.length, position⟩ :: rest, position, true⟩)
      else
        pure (.again ⟨⟨e.tree, l.length, position⟩ :: rest, position, false⟩)) := by
  obtain ⟨hne, hidx⟩ := index_of_backIndex hindex
  have hget : getIndex ((l ++ x :: r).map (Item.summary : T → S)) l.length =
      .ok (Item.summary x) := by
    simp [getIndex]
  have htake : ((l ++ x :: r).map (Item.summary : T → S)).take l.length =
      l.map Item.summary := by
    rw [← map_take, take_left]
  have hlt : ¬ ((l ++ x :: r).map (Item.summary : T → S)).length < l.length := by simp
  unfold backwardStep
  simp only [hne, if_false, hidx, htree, SumTree.childSummaries, hlt, hget, htake, ok_bind,
    pure_eq_ok]
  rfl

/-- With nothing left before it the node on top is left. -/
theorem backwardStep_eq_pop (filterNode : S → Bool) (hindex : backIndex e descend = 0) :
    backwardStep filterNode ⟨e :: rest, position, descend⟩ =
      .ok (.again ⟨rest, parentPosition rest, false⟩) := by
  have hpop : ¬ descend = true ∧ e.index = 0 := by
    cases descend <;> simp [backIndex] at hindex ⊢
    exact hindex
  unfold backwardStep
  simp only [hpop]
  rfl

/-- A pass that leaves the node on top. -/
theorem backwardPass_pop (tr : Tracks P) (path : Path P root rest h pre sub post)
    (hafter : skipped ++ ahead = sub.toList ++ post)
    (skip : SkippedBack filterNode behind pre skipped) :
    BackwardPass P root filterNode behind ahead ⟨e :: rest, position, descend⟩
      (.again ⟨rest, parentPosition rest, false⟩) := by
  refine ⟨⟨pre, skipped, skip, ?_, ?_⟩, ?_⟩
  · rw [hafter]
    exact Backward.ofPath path
  · rintro hnil
    obtain rfl : rest = [] := hnil
    exact tr.start
  · show backCost rest false < backCost (e :: rest) descend
    rw [backCost_false]
    simp only [backCost]
    split <;> omega

theorem backwardStep_internal (tr : Tracks P) (prunes : Prunes T filterNode) {hh : Nat}
    {cts : List (SumTree T S)} (path : Path P root rest h pre (.internal hh s css cts) post)
    (htree : e.tree = .internal hh s css cts)
    (cut : Cut (.internal hh s css cts) (backIndex e descend) left right)
    (hafter : skipped ++ ahead = right ++ post)
    (skip : SkippedBack filterNode behind (pre ++ left) skipped) :
    Ensures (BackwardPass P root filterNode behind ahead ⟨e :: rest, position, descend⟩)
      (fun e => e = .stackFull ∧ 15 < root.height)
      (backwardStep filterNode ⟨e :: rest, position, descend⟩) := by
  obtain ⟨l, r, rfl, hidx, rfl, rfl⟩ := cut.internal_inv
  rcases eq_nil_or_concat' l with rfl | ⟨l, c, rfl⟩
  · rw [backwardStep_eq_pop filterNode hidx]
    exact backwardPass_pop tr path (by simpa using hafter) (by simpa using skip)
  have hcts : l ++ [c] ++ r = l ++ c :: r := by simp
  rw [hcts] at path htree
  have wf := path.wf
  cases wf with
  | @internal h _ ne le children =>
  have hl : ∀ b ∈ l, b.Wf h := fun b hb => children b (by simp [hb])
  have hc : c.Wf h := children c (by simp)
  rw [backwardStep_eq_internal filterNode htree (by simpa using hidx)]
  have hposition := tr.forest hl (path.parentPosition tr)
  generalize (l.map SumTree.summary).foldl Dimension.addSummary (parentPosition rest) = d
    at hposition
  have hleft : pre ++ SumTree.toListForest (l ++ [c]) =
      (pre ++ SumTree.toListForest l) ++ c.toList := by simp
  rw [hleft] at skip
  by_cases hf : filterNode c.summary = true
  · rw [if_pos hf]
    obtain ⟨hfull, hpos⟩ := Cut.full hc
    obtain ⟨last, hlast⟩ : ∃ last, c.childSummaries.length = last + 1 :=
      ⟨c.childSummaries.length - 1, by omega⟩
    have hchild : Path P root (⟨e.tree, l.length, d⟩ :: rest) h
        (pre ++ SumTree.toListForest l) c (SumTree.toListForest r ++ post) :=
      .child path htree rfl hposition
    have hsub : checkedSub c.childSummaries.length 1 = .ok last := by simp [checkedSub, hlast]
    rw [hlast] at hfull
    simp only [hsub, ok_bind]
    refine (hchild.pushEntry_spec _).bind ?_
    rintro _ rfl
    refine ⟨⟨_, _, skip, ?_, fun hnil => by simp at hnil⟩, ?_⟩
    · rw [hafter]
      have hinside : Backward P root _ true _ _ := .inside (e := ⟨c, last, Dimension.zero S⟩)
        hchild rfl hfull
      simpa using hinside
    · have hlt := backCost_lt (e := ⟨c, last, Dimension.zero S⟩) (⟨e.tree, l.length, d⟩ :: rest)
        (show Cut c (backIndex ⟨c, last, Dimension.zero S⟩ true) _ _ from hfull)
      rw [← backCost_false (⟨e.tree, l.length, d⟩ :: rest),
        backCost_internal (e := ⟨e.tree, l.length, d⟩) htree rfl] at hlt
      rw [backCost_internal (l := l ++ [c]) (r := r) (by rw [htree, hcts]) hidx,
        SumTree.sizeForest_append]
      simp only [SumTree.sizeForest_cons, SumTree.sizeForest_nil] at hlt ⊢
      omega
  · rw [if_neg hf]
    have hturned : ∀ x ∈ c.toList, filterNode (Item.summary x) = false := by
      rw [hc.summary_eq] at hf
      exact prunes (by simpa using hf)
    have hcut : Cut (.internal (h + 1) (itemsSum (SumTree.toListForest (l ++ c :: r)))
        ((l ++ c :: r).map SumTree.summary) (l ++ c :: r))
        (backIndex (⟨e.tree, l.length, d⟩ : StackEntry T S D) false)
        (SumTree.toListForest l) (SumTree.toListForest (c :: r)) := .internal _ _
    have hinside : Backward P root (⟨e.tree, l.length, d⟩ :: rest) false _ _ :=
      .inside path htree hcut
    refine ⟨⟨_, _, skip.append rfl hturned, ?_, fun hnil => by simp at hnil⟩, ?_⟩
    · rw [append_assoc, hafter]
      simpa [append_assoc] using hinside
    · show backCost (⟨e.tree, l.length, d⟩ :: rest) false < backCost (e :: rest) descend
      have := c.two_le_size
      rw [backCost_internal (e := ⟨e.tree, l.length, d⟩) htree rfl,
        backCost_internal (l := l ++ [c]) (r := r) (by rw [htree, hcts]) hidx,
        SumTree.sizeForest_append]
      simp only [SumTree.sizeForest_cons, SumTree.sizeForest_nil]
      omega

theorem backwardStep_leaf (tr : Tracks P) (path : Path P root rest h pre (.leaf s its iss) post)
    (htree : e.tree = .leaf s its iss)
    (cut : Cut (.leaf s its iss) (backIndex e descend) left right)
    (hafter : skipped ++ ahead = right ++ post)
    (skip : SkippedBack filterNode behind (pre ++ left) skipped) :
    Ensures (BackwardPass P root filterNode behind ahead ⟨e :: rest, position, descend⟩)
      (fun e => e = .stackFull ∧ 15 < root.height)
      (backwardStep filterNode ⟨e :: rest, position, descend⟩) := by
  obtain ⟨l, r, rfl, hidx, rfl, rfl⟩ := cut.leaf_inv
  rcases eq_nil_or_concat' left with rfl | ⟨l, x, rfl⟩
  · rw [backwardStep_eq_pop filterNode hidx]
    exact backwardPass_pop tr path (by simpa using hafter) (by simpa using skip)
  have hits : l ++ [x] ++ right = l ++ x :: right := by simp
  rw [hits] at path htree
  have wf := path.wf
  cases wf with
  | leaf ne le =>
  rw [backwardStep_eq_leaf filterNode htree (by simpa using hidx)]
  have hposition := tr.items l (path.parentPosition tr)
  generalize (l.map (Item.summary : T → S)).foldl Dimension.addSummary (parentPosition rest) = d
    at hposition
  rw [← append_assoc] at skip
  by_cases hf : filterNode (Item.summary x) = true
  · rw [if_pos hf]
    refine .inl ⟨_, x, _, skip, hf, ?_, hposition⟩
    rw [hafter]
    exact .item path htree rfl
  · rw [if_neg hf]
    have hturned : ∀ y ∈ [x], filterNode (Item.summary y) = false := by simpa using hf
    have hcut : Cut (.leaf (itemsSum (l ++ x :: right)) (l ++ x :: right)
        ((l ++ x :: right).map Item.summary))
        (backIndex (⟨e.tree, l.length, d⟩ : StackEntry T S D) false) l (x :: right) := .leaf _ _
    have hinside : Backward P root (⟨e.tree, l.length, d⟩ :: rest) false _ _ :=
      .inside path htree hcut
    refine ⟨⟨_, _, skip.append rfl hturned, ?_, fun hnil => by simp at hnil⟩, ?_⟩
    · rw [append_assoc, hafter]
      simpa [append_assoc] using hinside
    · show backCost (⟨e.tree, l.length, d⟩ :: rest) false < backCost (e :: rest) descend
      rw [backCost_leaf (e := ⟨e.tree, l.length, d⟩) htree, backCost_leaf htree, hidx,
        show backIndex (⟨e.tree, l.length, d⟩ : StackEntry T S D) false = l.length from rfl]
      simp only [length_append, length_singleton]
      omega

/-! ## The search -/

theorem backwardLoop_spec (tr : Tracks P) (prunes : Prunes T filterNode)
    (kept : BackwardKept P root filterNode behind ahead behind [] st) :
    Ensures (BackwardEnded P root filterNode behind ahead)
      (fun e => e = .stackFull ∧ 15 < root.height)
      (loop .loopBound (backwardStep filterNode) root.size st) := by
  refine Exec.loop_ensures (fun st => ∃ remaining skipped,
    BackwardKept P root filterNode behind ahead remaining skipped st)
    (fun st => backCost st.stack st.descend) ?_ _ _ ⟨behind, [], kept⟩ kept.backward.cost_lt
  rintro ⟨stack, position, descend⟩ ⟨remaining, skipped, skip, backward, hposition⟩
  generalize hafter : skipped ++ ahead = after at backward
  cases backward with
  | @inside rest h pre post left right sub e _ path tree cut =>
    subst tree
    match htree : e.tree with
    | .internal hh s css cts =>
      rw [htree] at path cut
      exact backwardStep_internal tr prunes path htree cut hafter skip
    | .leaf s its iss =>
      rw [htree] at path cut
      exact backwardStep_leaf tr path htree cut hafter skip
  | atFront =>
    have hsplit := skip.split
    subst hsplit
    exact .inr ⟨skip, rfl, hafter, hposition rfl⟩

/-- `Returning P root behind ahead c`: the items `behind` are those that a search
    back from `c` looks at. -/
inductive Returning (P : List T → D → Prop) (root : SumTree T S) :
    List T → List T → Cursor T S D → Prop where
  | new : Returning P root root.toList [] (Cursor.new root)
  | start {c : Cursor T S D} (pos : c.AtStart P root) : Returning P root [] root.toList c
  | at {c : Cursor T S D} {before after : List T} (pos : c.At P root before after) :
      Returning P root before after c

/-- Where a backward search leaves the cursor: on the last item behind it that the
    filter accepts, or before the first item. -/
inductive Backed (P : List T → D → Prop) (root : SumTree T S) (filterNode : S → Bool)
    (behind ahead : List T) (c : Cursor T S D) : Prop where
  | item {remaining skipped : List T} {x : T}
      (skip : SkippedBack filterNode behind (remaining ++ [x]) skipped)
      (accepted : filterNode (Item.summary x) = true)
      (pos : c.At P root remaining (x :: (skipped ++ ahead)))
  | start (skip : SkippedBack filterNode behind [] behind) (pos : c.AtStart P root)
  | empty (hempty : root.toList = []) (pos : c.At P root [] [])

theorem searchBackward_eq_of_atEnd (hend : c.didSeek = true → c.atEnd = true)
    (hstack : c.stack = []) (hne : c.tree.isEmpty = false) :
    c.searchBackward filterNode = (do
      let st ← loop .loopBound (backwardStep filterNode) c.tree.size
        ⟨[⟨c.tree, c.tree.childSummaries.length,
          Dimension.addSummary (Dimension.zero S) c.tree.summary⟩], Dimension.zero S, false⟩
      pure { c with
        didSeek := true, atEnd := false, stack := st.stack, position := st.position }) := by
  obtain ⟨tree, stack, position, didSeek, atEnd⟩ := c
  obtain rfl : stack = [] := hstack
  have hat : (if didSeek then atEnd else true) = true := by
    cases didSeek with
    | true => exact hend rfl
    | false => rfl
  have hpush : ∀ e : StackEntry T S D, pushEntry [] e = .ok [e] := fun e => rfl
  simp only [searchBackward, hat, hne, hpush, ok_bind, pure_eq_ok, if_true, if_false,
    Bool.false_eq_true]

theorem searchBackward_eq_of_empty (hend : c.didSeek = true → c.atEnd = true)
    (hstack : c.stack = []) (hempty : c.tree.isEmpty = true) :
    c.searchBackward filterNode = .ok { c with
      didSeek := true, atEnd := true, position := Dimension.zero S } := by
  obtain ⟨tree, stack, position, didSeek, atEnd⟩ := c
  obtain rfl : stack = [] := hstack
  have hat : (if didSeek then atEnd else true) = true := by
    cases didSeek with
    | true => exact hend rfl
    | false => rfl
  obtain ⟨n, hn⟩ : ∃ n, tree.size = n + 1 := ⟨tree.size - 1, by have := tree.two_le_size; omega⟩
  simp only [searchBackward, hat, hempty, ok_bind, pure_eq_ok, if_true, hn]
  rfl

theorem searchBackward_eq_of_inside (hseek : c.didSeek = true) (hend : c.atEnd = false) :
    c.searchBackward filterNode = (do
      let st ← loop .loopBound (backwardStep filterNode) c.tree.size ⟨c.stack, c.position, false⟩
      pure { c with stack := st.stack, position := st.position }) := by
  obtain ⟨tree, stack, position, didSeek, atEnd⟩ := c
  obtain rfl : didSeek = true := hseek
  obtain rfl : atEnd = false := hend
  rfl

/-- The loop of `search_backward` and what comes after it, on a tree with items. -/
theorem backwardLoop_finish (tr : Tracks P) (prunes : Prunes T filterNode) (htree : c.tree = root)
    (hseek : c.didSeek = true) (hend : c.atEnd = false) (hne : root.isEmpty = false)
    (kept : BackwardKept P root filterNode behind ahead behind [] st) :
    Ensures (Backed P root filterNode behind ahead) (fun e => e = .stackFull ∧ 15 < root.height)
      (do
        let st ← loop .loopBound (backwardStep filterNode) root.size st
        pure { c with stack := st.stack, position := st.position }) := by
  refine (backwardLoop_spec tr prunes kept).bind fun st ended => ?_
  rcases ended with ⟨remaining, x, skipped, skip, hx, resting, hpos⟩ | ⟨skip, hstack, -, hpos⟩
  · exact .item skip hx ⟨htree, hseek, hend, resting, hpos⟩
  · exact .start skip ⟨htree, hne, hseek, hend, hstack, hpos⟩

/-- **Searching backward** stops at the last item behind that the filter accepts,
    or before the first item. -/
theorem searchBackward_spec (tr : Tracks P) (hroot : root.WellFormed) (prunes : Prunes T filterNode)
    (returning : Returning P root behind ahead c) :
    Ensures (Backed P root filterNode behind ahead) (fun e => e = .stackFull ∧ 15 < root.height)
      (c.searchBackward filterNode) := by
  have skip : ∀ behind : List T, SkippedBack filterNode behind behind [] :=
    fun behind => ⟨by simp, by simp⟩
  -- from behind the last item, the whole tree is searched
  have hwhole : root.isEmpty = false → ∀ d : D, BackwardKept P root filterNode root.toList []
      root.toList [] ⟨[⟨root, root.childSummaries.length, d⟩], Dimension.zero S, false⟩ := by
    intro hne d
    have wf := hroot.wf hne
    obtain ⟨hfull, -⟩ := Cut.full wf
    have hinside : Backward P root _ false _ _ :=
      .inside (e := ⟨root, root.childSummaries.length, d⟩) (Path.root wf) rfl hfull
    exact ⟨skip _, by simpa using hinside, fun _ => tr.start⟩
  cases returning with
  | new =>
    cases hempty : root.isEmpty with
    | true =>
      have hnil := (SumTree.isEmpty_iff_toList hroot).mp hempty
      rw [searchBackward_eq_of_empty (by simp [Cursor.new]) rfl hempty]
      refine .empty hnil ⟨rfl, rfl, rfl, ?_, tr.start⟩
      have hfinished : Resting P root [] root.toList [] := .finished
      rwa [hnil] at hfinished
    | false =>
      rw [searchBackward_eq_of_atEnd (by simp [Cursor.new]) rfl hempty]
      exact backwardLoop_finish (c := { Cursor.new root with didSeek := true, atEnd := false })
        tr prunes rfl rfl rfl hempty (hwhole hempty _)
  | start pos =>
    obtain rfl := pos.tree
    rw [searchBackward_eq_of_inside pos.didSeek pos.atEnd]
    refine backwardLoop_finish tr prunes rfl pos.didSeek pos.atEnd pos.nonempty
      ⟨skip _, ?_, fun _ => pos.position⟩
    rw [pos.stack]
    exact .atFront
  | «at» pos =>
    obtain rfl := pos.tree
    cases ahead with
    | nil =>
      have hat : c.atEnd = true := pos.atEnd
      have hnil : c.stack = [] := by simpa using pos.stack.isEmpty
      have hitems := pos.items
      rw [append_nil] at hitems
      subst hitems
      cases hempty : c.tree.isEmpty with
      | true =>
        have htoList := (SumTree.isEmpty_iff_toList hroot).mp hempty
        rw [searchBackward_eq_of_empty (fun _ => hat) hnil hempty]
        refine .empty htoList ⟨rfl, rfl, rfl, ?_, tr.start⟩
        have hfinished : Resting P c.tree [] c.tree.toList [] := .finished
        rw [htoList] at hfinished
        rwa [hnil]
      | false =>
        rw [searchBackward_eq_of_atEnd (fun _ => hat) hnil hempty]
        exact backwardLoop_finish (c := { c with didSeek := true, atEnd := false })
          tr prunes rfl rfl rfl hempty (hwhole hempty _)
    | cons x ahead =>
      have hat : c.atEnd = false := pos.atEnd
      rw [searchBackward_eq_of_inside pos.didSeek hat]
      have hresting := pos.stack
      generalize hstack : c.stack = stack at hresting
      cases hresting with
      | @item rest pre post l r _ s iss e path tree index =>
        have hne : c.tree.isEmpty = false := by
          by_contra hempty
          have := (SumTree.isEmpty_iff_toList hroot).mp (by simpa using hempty)
          rw [← path.items] at this
          simp at this
        have hcut : Cut (.leaf s (l ++ x :: r) iss) (backIndex e false) l (x :: r) := by
          rw [show backIndex e false = l.length from index]
          exact .leaf _ _
        have hinside : Backward P c.tree (e :: rest) false _ _ := .inside path tree hcut
        exact backwardLoop_finish tr prunes rfl pos.didSeek hat hne
          ⟨skip _, hinside, fun hnil => by simp at hnil⟩

/-- Where `prev` leads from behind the items `behind`. -/
inductive SteppedBack (P : List T → D → Prop) (root : SumTree T S) :
    List T → List T → Cursor T S D → Prop where
  | item {before ahead : List T} {x : T} {c : Cursor T S D}
      (pos : c.At P root before (x :: ahead)) : SteppedBack P root (before ++ [x]) ahead c
  | start {ahead : List T} {c : Cursor T S D} (pos : c.AtStart P root) :
      SteppedBack P root [] ahead c
  | empty {ahead : List T} {c : Cursor T S D} (hempty : root.toList = [])
      (pos : c.At P root [] []) : SteppedBack P root [] ahead c

/-- **`prev`** steps back onto the item before the cursor. -/
theorem prev_spec (tr : Tracks P) (hroot : root.WellFormed) (hitems : behind ++ ahead = root.toList)
    (returning : Returning P root behind ahead c) :
    Ensures (SteppedBack P root behind ahead) (fun e => e = .stackFull ∧ 15 < root.height)
      c.prev := by
  refine (searchBackward_spec tr hroot prunes_true returning).imp ?_ (fun _ h => h)
  rintro c' (⟨⟨hsplit, hturned⟩, -, pos⟩ | ⟨⟨-, hturned⟩, pos⟩ | ⟨hempty, pos⟩)
  · rename_i before skipped x
    obtain rfl : skipped = [] := by
      cases skipped with
      | nil => rfl
      | cons x _ => exact Bool.noConfusion (hturned x (by simp))
    rw [append_nil] at hsplit
    subst hsplit
    exact .item pos
  · obtain rfl : behind = [] := by
      cases behind with
      | nil => rfl
      | cons x _ => exact Bool.noConfusion (hturned x (by simp))
    exact .start pos
  · obtain rfl : behind = [] := by
      rw [hempty] at hitems
      exact (append_eq_nil_iff.mp hitems).1
    exact .empty hempty pos

end Cursor

end Gpui
