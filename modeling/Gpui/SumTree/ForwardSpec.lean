import Gpui.SumTree.CursorPath

/-! # SumTree: walking forward

    `search_forward` moves to the next item that the filter accepts.  A filter
    may turn down a whole subtree, so it has to turn down every item of a sum
    that it turns down. -/

set_option linter.unusedSectionVars false

namespace Gpui

open List

open Exec (Returns Ensures Next loop pure_eq_ok ok_bind)

variable {T S D : Type} [Summary S] [Item T S] [Dimension D S]

/-- A filter that turns down a sum turns down each of its items. -/
def Prunes (T : Type) {S : Type} [Summary S] [Item T S] (filterNode : S → Bool) : Prop :=
  ∀ {xs : List T}, filterNode (itemsSum xs) = false →
    ∀ x ∈ xs, filterNode (Item.summary x) = false

theorem prunes_true : Prunes T (fun _ : S => true) :=
  fun h => Bool.noConfusion h

namespace Cursor

variable {P : List T → D → Prop} {root : SumTree T S} {filterNode : S → Bool}

/-! ## One pass -/

theorem skipFiltered_spec (filterNode : S → Bool) {α : Type} (content : α → List T)
    (summary : α → S) (xs : List α)
    (hx : ∀ x ∈ xs, ∀ ys d, P ys d → P (ys ++ content x) (Dimension.addSummary d (summary x))) :
    ∀ (index : Nat) (entryPosition position : D) {before : List T}, P before position →
      ∃ passed ahead entryPosition' position', xs = passed ++ ahead ∧
        skipFiltered filterNode (xs.map summary) index entryPosition position =
          (index + passed.length, entryPosition', position') ∧
        (P before entryPosition → P (before ++ passed.flatMap content) entryPosition') ∧
        P (before ++ passed.flatMap content) position' ∧
        (∀ x ∈ passed, filterNode (summary x) = false) ∧
        ∀ x ∈ ahead.head?, filterNode (summary x) = true := by
  induction xs with
  | nil =>
    intro index entryPosition position before hp
    exact ⟨[], [], entryPosition, position, rfl, rfl, by simp, by simpa using hp, by simp, by simp⟩
  | cons x xs ih =>
    intro index entryPosition position before hp
    rw [map_cons, skipFiltered]
    by_cases hf : filterNode (summary x) = true
    · rw [if_pos hf]
      exact ⟨[], x :: xs, entryPosition, position, rfl, rfl, by simp, by simpa using hp, by simp,
        by simpa using hf⟩
    · rw [if_neg hf]
      have hstep := hx x (by simp) before
      obtain ⟨passed, ahead, ep, p, rfl, heq, hep, hp', hpassed, hahead⟩ :=
        ih (fun y hy => hx y (by simp [hy])) (index + 1)
          (Dimension.addSummary entryPosition (summary x))
          (Dimension.addSummary position (summary x)) (hstep _ hp)
      refine ⟨x :: passed, ahead, ep, p, rfl, ?_, fun h => ?_, ?_, ?_, hahead⟩
      · rw [heq, length_cons]
        congr 1
        omega
      · simpa [append_assoc] using hep (hstep _ h)
      · simpa [append_assoc] using hp'
      · simpa [hf] using hpassed

/-- A search for an item behind `start` has skipped the items `skipped`. -/
structure Skipped (filterNode : S → Bool) (ahead skipped after : List T) : Prop where
  split : ahead = skipped ++ after
  turned : ∀ x ∈ skipped, filterNode (Item.summary x) = false

/-- The state of a forward search: on the move, or about to leave the item it
    started from, the last one of `start`. -/
inductive Forward (P : List T → D → Prop) (root : SumTree T S) (start ahead : List T) :
    List T → List T → WalkState T S D → Prop where
  | walking {skipped after : List T} {st : WalkState T S D}
      (walk : Walk P root st.stack st.descend (start ++ skipped) after)
      (position : P (start ++ skipped) st.position) : Forward P root start ahead skipped after st
  | leaving {before : List T} {x : T} {st : WalkState T S D} (hstart : start = before ++ [x])
      (descend : st.descend = false) (resting : Resting P root st.stack before (x :: ahead))
      (position : P before st.position) : Forward P root start ahead [] ahead st

variable {start ahead skipped after : List T} {position : D} {descend : Bool}
variable {e : StackEntry T S D} {rest : List (StackEntry T S D)} {s : S} {st : WalkState T S D}
variable {c : Cursor T S D}

/-- Inside a leaf, a forward search stands behind the items `l`. -/
theorem Forward.leaf_inv (filterNode : S → Bool) (tr : Tracks P) {its : List T} {iss : List S}
    (forward : Forward P root start ahead skipped after ⟨e :: rest, position, descend⟩)
    (htree : e.tree = .leaf s its iss) :
    ∃ pre post l r entryPosition position', its = l ++ r ∧ iss = its.map Item.summary ∧
      Path P root rest 0 pre (.leaf s its iss) post ∧ start ++ skipped = pre ++ l ∧
      after = r ++ post ∧ P (start ++ skipped) position' ∧
      forwardStep filterNode ⟨e :: rest, position, descend⟩ = (
        let (index, entryPosition, position) := skipFiltered filterNode (r.map Item.summary)
          l.length entryPosition position'
        if index < its.length then
          pure (.done (.returned
            ⟨{ e with index := index, position := entryPosition } :: rest, position, descend⟩))
        else
          pure (.again ⟨rest, position, false⟩)) := by
  cases forward with
  | walking walk position' =>
    obtain ⟨pre, post, l, r, rfl, rfl, rfl, -, path, hidx, hbefore, hafter⟩ := walk.leaf_inv htree
    refine ⟨pre, post, l, r, e.position, position, rfl, rfl, path, hbefore, hafter, position', ?_⟩
    have hdrop : ((l ++ r).map (Item.summary : T → S)).drop l.length = r.map Item.summary := by
      rw [← map_drop, drop_left]
    simp only [forwardStep, htree, if_true, pure_eq_ok, ok_bind, hdrop, hidx,
      length_map]
  | @leaving before x _ hstart hdescend resting position' =>
    subst hdescend hstart
    cases resting with
    | @item _ pre post l r _ s' iss' _ path tree index =>
      obtain ⟨rfl, rfl, rfl⟩ := SumTree.leaf.inj (htree.symm.trans tree)
      have wf := path.wf
      cases wf with
      | leaf ne le =>
        have hget : getIndex ((l ++ x :: r).map (Item.summary : T → S)) l.length =
            .ok (Item.summary x) := by simp [getIndex]
        have hdrop : ((l ++ x :: r).map (Item.summary : T → S)).drop (l.length + 1) =
            r.map Item.summary := by
          rw [← map_drop, append_cons, drop_left' (by simp)]
        refine ⟨pre, post, l ++ [x], r, Dimension.addSummary e.position (Item.summary x),
          Dimension.addSummary position (Item.summary x), by simp, rfl, path, by simp, rfl, ?_, ?_⟩
        · rw [append_nil]
          exact tr.item x position'
        · simp only [forwardStep, htree, Bool.false_eq_true, if_false, index, hget,
            pure_eq_ok, ok_bind, hdrop, length_map, length_append,
            length_singleton]

/-- Inside an internal node, a forward search stands behind the children `l`. -/
theorem Forward.internal_inv (filterNode : S → Bool)
    {hh : Nat} {css : List S} {cts : List (SumTree T S)}
    (forward : Forward P root start ahead skipped after ⟨e :: rest, position, descend⟩)
    (htree : e.tree = .internal hh s css cts) :
    ∃ h pre post l r entryPosition, hh = h + 1 ∧ cts = l ++ r ∧
      css = cts.map SumTree.summary ∧ (∀ c ∈ cts, c.Wf h) ∧
      Path P root rest (h + 1) pre (.internal (h + 1) s css cts) post ∧
      (if descend then e.index else e.index + 1) = l.length ∧
      start ++ skipped = pre ++ SumTree.toListForest l ∧
      after = SumTree.toListForest r ++ post ∧
      P (start ++ skipped) entryPosition ∧ P (start ++ skipped) position ∧
      forwardStep filterNode ⟨e :: rest, position, descend⟩ = (
        let (index, entryPosition, position) := skipFiltered filterNode (r.map SumTree.summary)
          l.length entryPosition position
        match cts[index]? with
        | some subtree => do
          let stack ← pushEntry ({ e with index := index, position := entryPosition } :: rest)
            { tree := subtree, index := 0, position := position }
          pure (.again ⟨stack, position, true⟩)
        | none => pure (.again ⟨rest, position, false⟩)) := by
  cases forward with
  | walking walk position' =>
    obtain ⟨h, pre, post, l, r, rfl, rfl, rfl, hw, -, path, hidx, hbefore, hafter, hentry⟩ :=
      walk.internal_inv htree
    have hdrop : ((l ++ r).map SumTree.summary).drop l.length = r.map SumTree.summary := by
      rw [← map_drop, drop_left]
    cases descend with
    | true =>
      refine ⟨h, pre, post, l, r, e.position, rfl, rfl, rfl, hw, path, hidx, hbefore, hafter,
        hentry rfl, position', ?_⟩
      replace hidx : e.index = l.length := hidx
      obtain ⟨_, _, _⟩ := e
      cases htree
      rw [← hdrop, ← hidx]
      rfl
    | false =>
      refine ⟨h, pre, post, l, r, position, rfl, rfl, rfl, hw, path, hidx, hbefore, hafter,
        position', position', ?_⟩
      replace hidx : e.index + 1 = l.length := hidx
      obtain ⟨_, _, _⟩ := e
      cases htree
      rw [← hdrop, ← hidx]
      rfl
  | leaving _ _ resting =>
    cases resting with
    | item path tree => exact absurd (htree.symm.trans tree) (by simp)

/-- How a forward search ends. -/
def ForwardEnded (P : List T → D → Prop) (root : SumTree T S) (filterNode : S → Bool)
    (start ahead : List T) : ForwardEnd T S D → Prop
  | .returned st => ∃ skipped x after, Skipped filterNode ahead skipped (x :: after) ∧
      filterNode (Item.summary x) = true ∧
      Resting P root st.stack (start ++ skipped) (x :: after) ∧ P (start ++ skipped) st.position
  | .exhausted st => Skipped filterNode ahead ahead [] ∧ st.stack = [] ∧
      start ++ ahead = root.toList ∧ P root.toList st.position

/-- Skipping a row of subtrees that the filter turns down. -/
theorem Skipped.forest (prunes : Prunes T filterNode) {h : Nat}
    {passed : List (SumTree T S)} {rest : List T} (skip : Skipped filterNode ahead skipped after)
    (hafter : after = SumTree.toListForest passed ++ rest) (hw : ∀ c ∈ passed, c.Wf h)
    (hpassed : ∀ c ∈ passed, filterNode c.summary = false) :
    Skipped filterNode ahead (skipped ++ SumTree.toListForest passed) rest := by
  refine ⟨by rw [skip.split, hafter, append_assoc], fun x hx => ?_⟩
  rcases mem_append.mp hx with hx | hx
  · exact skip.turned x hx
  · rw [SumTree.toListForest_eq_flatten] at hx
    obtain ⟨_, hmem, hx⟩ := mem_flatten.mp hx
    obtain ⟨c, hc, rfl⟩ := mem_map.mp hmem
    have hf := hpassed c hc
    rw [(hw c hc).summary_eq] at hf
    exact prunes hf x hx

theorem Skipped.items {passed rest : List T}
    (skip : Skipped filterNode ahead skipped after) (hafter : after = passed ++ rest)
    (hpassed : ∀ x ∈ passed, filterNode (Item.summary x) = false) :
    Skipped filterNode ahead (skipped ++ passed) rest := by
  refine ⟨by rw [skip.split, hafter, append_assoc], fun x hx => ?_⟩
  rcases mem_append.mp hx with hx | hx
  · exact skip.turned x hx
  · exact hpassed x hx

/-- What a pass of a forward search keeps. -/
def ForwardKept (P : List T → D → Prop) (root : SumTree T S) (filterNode : S → Bool)
    (start ahead : List T) (st : WalkState T S D) : Prop :=
  ∃ skipped after, Skipped filterNode ahead skipped after ∧
    Forward P root start ahead skipped after st

/-- What a pass of a forward search does. -/
def ForwardPass (P : List T → D → Prop) (root : SumTree T S) (filterNode : S → Bool)
    (start ahead : List T) (st : WalkState T S D) :
    Next (WalkState T S D) (ForwardEnd T S D) → Prop :=
  Exec.Pass (ForwardKept P root filterNode start ahead)
    (fun st => walkCost st.stack st.descend) (walkCost st.stack st.descend)
    (ForwardEnded P root filterNode start ahead)

theorem forwardStep_internal (tr : Tracks P) (prunes : Prunes T filterNode) {hh : Nat}
    {css : List S} {cts : List (SumTree T S)} (skip : Skipped filterNode ahead skipped after)
    (forward : Forward P root start ahead skipped after ⟨e :: rest, position, descend⟩)
    (htree : e.tree = .internal hh s css cts) :
    Ensures (ForwardPass P root filterNode start ahead ⟨e :: rest, position, descend⟩)
      (fun e => e = .stackFull ∧ 15 < root.height)
      (forwardStep filterNode ⟨e :: rest, position, descend⟩) := by
  obtain ⟨h, pre, post, l, r, ep, rfl, rfl, rfl, hw, path, hidx, hbefore, hafter, hep, hp,
    hstep⟩ := forward.internal_inv filterNode htree
  rw [hstep]
  obtain ⟨passed, ahead', ep', p', rfl, hskip, hep', hp', hpassed, hahead⟩ :=
    skipFiltered_spec filterNode SumTree.toList SumTree.summary r
      (fun c hc ys d hd => tr.tree (hw c (by simp [hc])) hd) l.length ep position hp
  rw [hskip]
  rw [← SumTree.toListForest_eq_flatMap] at hep' hp'
  have hnext : (l ++ (passed ++ ahead'))[l.length + passed.length]? = ahead'.head? := by
    rw [← append_assoc, getElem?_append_right (by simp)]
    simp [head?_eq_getElem?]
  simp only [hnext]
  have hmoved : start ++ (skipped ++ SumTree.toListForest passed) =
      pre ++ SumTree.toListForest (l ++ passed) := by
    rw [← append_assoc, hbefore, SumTree.toListForest_append, append_assoc]
  have hwp : ∀ c ∈ passed, c.Wf h := fun c hc => hw c (by simp [hc])
  rw [SumTree.toListForest_append, append_assoc] at hafter
  have hskipped := skip.forest prunes hafter hwp hpassed
  cases ahead' with
  | nil =>
    refine ⟨⟨_, _, hskipped, .walking ?_ ?_⟩, ?_⟩
    · rw [hmoved]
      simpa using path.leave
    · rw [← append_assoc]
      exact hp'
    · rw [walkCost_internal htree hidx]
      show walkCost rest false < _
      rw [walkCost_false]
      omega
  | cons c behind =>
    have hcts : l ++ (passed ++ c :: behind) = (l ++ passed) ++ c :: behind := by simp
    have hchild : Path P root (⟨e.tree, l.length + passed.length, ep'⟩ :: rest) h
        (pre ++ SumTree.toListForest (l ++ passed)) c (SumTree.toListForest behind ++ post) := by
      rw [hcts] at path htree
      refine .child path htree (by simp) ?_
      rw [← hmoved, ← append_assoc]
      exact hep' hep
    refine (hchild.pushEntry_spec _).bind ?_
    rintro _ rfl
    refine ⟨⟨_, _, hskipped, .walking ?_ ?_⟩, ?_⟩
    · rw [hmoved, SumTree.toListForest_cons, append_assoc]
      refine hchild.enter ?_
      rw [← hmoved, ← append_assoc]
      exact hp'
    · rw [← append_assoc]
      exact hp'
    · exact walkCost_descend htree hidx htree rfl

theorem forwardStep_leaf (tr : Tracks P) {its : List T} {iss : List S}
    (skip : Skipped filterNode ahead skipped after)
    (forward : Forward P root start ahead skipped after ⟨e :: rest, position, descend⟩)
    (htree : e.tree = .leaf s its iss) :
    Ensures (ForwardPass P root filterNode start ahead ⟨e :: rest, position, descend⟩)
      (fun e => e = .stackFull ∧ 15 < root.height)
      (forwardStep filterNode ⟨e :: rest, position, descend⟩) := by
  obtain ⟨pre, post, l, r, ep, position', rfl, rfl, path, hbefore, hafter, hp, hstep⟩ :=
    forward.leaf_inv filterNode tr htree
  rw [hstep]
  obtain ⟨passed, ahead', ep', p', rfl, hskip, -, hp', hpassed, hahead⟩ :=
    skipFiltered_spec filterNode (fun x => [x]) Item.summary r
      (fun x _ ys d hd => tr.item x hd) l.length ep position' hp
  rw [hskip]
  simp only [flatMap_singleton'] at hp'
  have hmoved : start ++ (skipped ++ passed) = pre ++ (l ++ passed) := by
    rw [← append_assoc, hbefore, append_assoc]
  rw [append_assoc] at hafter
  have hskipped := skip.items hafter hpassed
  cases ahead' with
  | nil =>
    simp only [append_nil, length_append, Nat.lt_irrefl, if_false]
    refine ⟨⟨_, _, hskipped, .walking ?_ ?_⟩, ?_⟩
    · rw [hmoved]
      simpa using path.leave
    · rw [← append_assoc]
      exact hp'
    · rw [walkCost_leaf htree]
      show walkCost rest false < _
      rw [walkCost_false]
      omega
  | cons x behind =>
    have hlt : l.length + passed.length < (l ++ (passed ++ x :: behind)).length := by
      simp only [length_append, length_cons]
      omega
    simp only [hlt, if_true]
    refine ⟨_, x, _, hskipped, hahead x rfl, ?_, ?_⟩
    · rw [hmoved]
      have hits : l ++ (passed ++ x :: behind) = (l ++ passed) ++ x :: behind := by simp
      rw [hits] at path htree
      exact .item path htree (by simp)
    · rw [← append_assoc]
      exact hp'

theorem forwardStep_spec (tr : Tracks P) (prunes : Prunes T filterNode)
    (kept : ForwardKept P root filterNode start ahead st) :
    Ensures (ForwardPass P root filterNode start ahead st)
      (fun e => e = .stackFull ∧ 15 < root.height) (forwardStep filterNode st) := by
  obtain ⟨skipped, after, skip, forward⟩ := kept
  obtain ⟨stack, position, descend⟩ := st
  match stack with
  | [] =>
    show ForwardEnded P root filterNode start ahead (.exhausted _)
    cases forward with
    | walking walk hposition =>
      generalize hbefore : start ++ skipped = before at walk hposition
      cases walk with
      | finished =>
        have hsplit := skip.split
        rw [append_nil] at hsplit
        subst hsplit
        exact ⟨skip, rfl, hbefore, hposition⟩
    | leaving _ _ resting => cases resting
  | e :: rest =>
    match htree : e.tree with
    | .internal hh s css cts => exact forwardStep_internal tr prunes skip forward htree
    | .leaf s its iss => exact forwardStep_leaf tr skip forward htree

/-! ## The search -/

theorem Forward.cost_lt
    (forward : Forward P root start ahead skipped after st) :
    walkCost st.stack st.descend < root.size := by
  cases forward with
  | walking walk => exact walk.cost_lt
  | leaving _ _ resting => exact resting.cost_lt st.descend

theorem forwardLoop_spec (tr : Tracks P) (prunes : Prunes T filterNode)
    (forward : Forward P root start ahead [] ahead st) :
    Ensures (ForwardEnded P root filterNode start ahead)
      (fun e => e = .stackFull ∧ 15 < root.height)
      (loop .loopBound (forwardStep filterNode) root.size st) :=
  Exec.loop_ensures (ForwardKept P root filterNode start ahead)
    (fun st => walkCost st.stack st.descend) (fun _ kept => forwardStep_spec tr prunes kept) _ _
    ⟨[], ahead, ⟨rfl, by simp⟩, forward⟩ forward.cost_lt

/-- `Leaving P root start ahead c`: once `c` has left the item it stands on, the
    items `start` are behind it and `ahead` is left. -/
inductive Leaving (P : List T → D → Prop) (root : SumTree T S) :
    List T → List T → Cursor T S D → Prop where
  | new : Leaving P root [] root.toList (Cursor.new root)
  | start {c : Cursor T S D} (pos : c.AtStart P root) : Leaving P root [] root.toList c
  | item {c : Cursor T S D} {before after : List T} {x : T}
      (pos : c.At P root before (x :: after)) : Leaving P root (before ++ [x]) after c
  | finished {c : Cursor T S D} (pos : c.At P root root.toList []) :
      Leaving P root root.toList [] c

/-- The first item ahead that the filter accepts. -/
structure Forwarded (P : List T → D → Prop) (root : SumTree T S) (filterNode : S → Bool)
    (start ahead skipped after : List T) (c : Cursor T S D) : Prop where
  skip : Skipped filterNode ahead skipped after
  pos : c.At P root (start ++ skipped) after
  accepted : ∀ x ∈ after.head?, filterNode (Item.summary x) = true

/-- The end of `search_forward`. -/
def forwardFinish (c : Cursor T S D) : ForwardEnd T S D → Cursor T S D
  | .returned st => { c with stack := st.stack, position := st.position }
  | .exhausted st =>
    { c with stack := st.stack, position := st.position, atEnd := st.stack.isEmpty }

/-- The loop of `search_forward` and what comes after it, on a tree with items. -/
theorem forwardLoop_finish (tr : Tracks P) (prunes : Prunes T filterNode) (htree : c.tree = root)
    (hseek : c.didSeek = true) (hend : c.atEnd = false)
    (forward : Forward P root start ahead [] ahead st) :
    Ensures (fun c' => ∃ skipped after, Forwarded P root filterNode start ahead skipped after c')
      (fun e => e = .stackFull ∧ 15 < root.height) (do
        let r ← loop .loopBound (forwardStep filterNode) root.size st
        pure (forwardFinish c r)) := by
  refine (forwardLoop_spec tr prunes forward).bind fun r ended => ?_
  cases r with
  | returned st =>
    obtain ⟨skipped, x, after, skip, hx, resting, position⟩ := ended
    exact ⟨skipped, x :: after, skip, ⟨htree, hseek, hend, resting, position⟩, by simpa using hx⟩
  | exhausted st =>
    obtain ⟨skip, hstack, hitems, position⟩ := ended
    refine ⟨ahead, [], skip, ⟨htree, hseek, ?_, ?_, ?_⟩, by simp⟩
    · simp [forwardFinish, hstack]
    · rw [hitems]
      simp only [forwardFinish, hstack]
      exact .finished
    · rw [hitems]
      exact position

/-- With an empty stack the loop of `search_forward` ends at once. -/
theorem forwardLoop_nil {E : Panic → Prop}
    (htree : c.tree = root) (hseek : c.didSeek = true) (hposition : P root.toList position) :
    Ensures (fun c' => ∃ skipped after,
        Forwarded P root filterNode root.toList [] skipped after c') E (do
      let r ← loop .loopBound (forwardStep filterNode) root.size ⟨[], position, descend⟩
      pure (forwardFinish c r)) := by
  obtain ⟨n, hn⟩ : ∃ n, root.size = n + 1 := ⟨root.size - 1, by have := root.two_le_size; omega⟩
  rw [hn]
  refine ⟨[], [], ⟨rfl, by simp⟩, ⟨htree, hseek, rfl, ?_, ?_⟩, by simp⟩
  · rw [append_nil]
    exact .finished
  · rw [append_nil]
    exact hposition

theorem searchForward_eq_of_ne_nil (hstack : c.stack ≠ []) :
    c.searchForward filterNode = (do
      let r ← loop .loopBound (forwardStep filterNode) c.tree.size ⟨c.stack, c.position, false⟩
      pure (forwardFinish c r)) := by
  obtain ⟨tree, stack, position, didSeek, atEnd⟩ := c
  match stack with
  | [] => exact absurd rfl hstack
  | e :: rest =>
    simp only [searchForward, pure_eq_ok, ok_bind]
    congr 1
    funext r
    cases r <;> rfl

theorem searchForward_eq_of_nil (hstack : c.stack = []) :
    c.searchForward filterNode = (do
      let r ← loop .loopBound (forwardStep filterNode) c.tree.size
        ⟨if c.atEnd then [] else [⟨c.tree, 0, Dimension.zero S⟩], c.position, !c.atEnd⟩
      pure (forwardFinish { c with didSeek := true } r)) := by
  obtain ⟨tree, stack, position, didSeek, atEnd⟩ := c
  obtain rfl : stack = [] := hstack
  cases atEnd with
  | true =>
    simp only [searchForward, pure_eq_ok, ok_bind, if_true]
    congr 1
    funext r
    cases r <;> rfl
  | false =>
    have hpush : pushEntry ([] : List (StackEntry T S D)) ⟨tree, 0, Dimension.zero S⟩ =
        .ok [⟨tree, 0, Dimension.zero S⟩] := rfl
    simp only [searchForward, hpush, pure_eq_ok, ok_bind, if_false, Bool.false_eq_true]
    congr 1
    funext r
    cases r <;> rfl

/-- **Searching forward** stops at the first item ahead that the filter accepts,
    or behind the last item. -/
theorem searchForward_spec (tr : Tracks P) (hroot : root.WellFormed) (prunes : Prunes T filterNode)
    (leaving : Leaving P root start ahead c) :
    Ensures (fun c' => ∃ skipped after, Forwarded P root filterNode start ahead skipped after c')
      (fun e => e = .stackFull ∧ 15 < root.height) (c.searchForward filterNode) := by
  cases leaving with
  | new =>
    rw [searchForward_eq_of_nil rfl]
    rcases hroot with rfl | ⟨h, hle, wf⟩
    · exact forwardLoop_nil rfl rfl tr.start
    · have hend : (Cursor.new root : Cursor T S D).atEnd = false := wf.isEmpty_eq
      rw [hend]
      exact forwardLoop_finish tr prunes rfl rfl rfl (.walking (Walk.whole tr wf) tr.start)
  | start pos =>
    have wf := hroot.wf pos.nonempty
    obtain rfl := pos.tree
    rw [searchForward_eq_of_nil pos.stack, pos.atEnd]
    exact forwardLoop_finish tr prunes rfl rfl rfl (.walking (Walk.whole tr wf) pos.position)
  | item pos =>
    obtain rfl := pos.tree
    have hne : c.stack ≠ [] := by
      have := pos.stack.isEmpty
      rintro hnil
      simp [hnil] at this
    rw [searchForward_eq_of_ne_nil hne]
    exact forwardLoop_finish tr prunes rfl pos.didSeek pos.atEnd
      (.leaving rfl rfl pos.stack pos.position)
  | finished pos =>
    obtain rfl := pos.tree
    have hnil : c.stack = [] := by simpa using pos.stack.isEmpty
    rw [searchForward_eq_of_nil hnil, show c.atEnd = true from pos.atEnd]
    exact forwardLoop_nil rfl rfl pos.position

/-- **`next`** leaves the item that the cursor stands on. -/
theorem next_spec (tr : Tracks P) (hroot : root.WellFormed)
    (leaving : Leaving P root start ahead c) :
    Ensures (fun c' => c'.At P root start ahead) (fun e => e = .stackFull ∧ 15 < root.height)
      c.next := by
  refine (searchForward_spec tr hroot prunes_true leaving).imp ?_ (fun _ h => h)
  rintro c' ⟨skipped, after, ⟨hsplit, hturned⟩, pos, -⟩
  obtain rfl : skipped = [] := by
    cases skipped with
    | nil => rfl
    | cons x _ => exact Bool.noConfusion (hturned x (by simp))
  subst hsplit
  rwa [append_nil] at pos

end Cursor

end Gpui
