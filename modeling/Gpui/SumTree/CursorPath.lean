import Gpui.SumTree.Cursor
import Gpui.SumTree.BuildSpec

/-! # SumTree: where a cursor stands

    The stack of a cursor is a path from the root into the tree.  A path splits
    the items of the tree into those before, in and after the subtree it leads
    to, and every entry on it carries the position of that subtree.

    What a position says about the items before it is a parameter `P`: for an
    additive dimension it is their measure, for an arbitrary one nothing. -/

set_option linter.unusedSectionVars false

namespace Gpui

open List

open Exec (Returns Ensures Next loop ok_bind pure_eq_ok)

variable {T S D : Type} [Summary S] [Item T S] [Dimension D S] {cts : List (SumTree T S)}

/-! ## Positions -/

/-- `P` follows the position of a cursor past items and whole subtrees. -/
structure Tracks (P : List T → D → Prop) : Prop where
  start : P [] (Dimension.zero S)
  item  : ∀ {xs d} (x : T), P xs d → P (xs ++ [x]) (Dimension.addSummary d (Item.summary x))
  tree  : ∀ {xs d h} {t : SumTree T S}, t.Wf h → P xs d →
    P (xs ++ t.toList) (Dimension.addSummary d t.summary)

/-- Nothing is known of the positions of an arbitrary dimension. -/
theorem Tracks.trivial : Tracks (fun (_ : List T) (_ : D) => True) :=
  ⟨.intro, fun _ _ => .intro, fun _ _ => .intro⟩

/-- Following a position past a row of subtrees. -/
theorem Tracks.forest {P : List T → D → Prop} (tr : Tracks P) {h : Nat} (hw : ∀ c ∈ cts, c.Wf h) :
    ∀ {xs : List T} {d : D}, P xs d →
      P (xs ++ SumTree.toListForest cts)
        ((cts.map SumTree.summary).foldl Dimension.addSummary d) := by
  induction cts with
  | nil =>
    intro xs d hp
    simpa using hp
  | cons c cs ih =>
    intro xs d hp
    have hc := tr.tree (hw c (by simp)) hp
    simpa [append_assoc] using ih (fun b hb => hw b (by simp [hb])) hc

/-- Following a position past a row of items. -/
theorem Tracks.items {P : List T → D → Prop} (tr : Tracks P) (its : List T) :
    ∀ {xs : List T} {d : D}, P xs d →
      P (xs ++ its) ((its.map Item.summary).foldl Dimension.addSummary d) := by
  induction its with
  | nil =>
    intro xs d hp
    simpa using hp
  | cons x its ih =>
    intro xs d hp
    simpa [append_assoc] using ih (tr.item x hp)

/-- The items before a cursor determine its position. -/
def Determines (P : List T → D → Prop) : Prop :=
  ∀ {xs d d'}, P xs d → P xs d' → d = d'

/-- The position of an additive dimension is the measure of the items before it. -/
abbrev Measured : List T → D → Prop := fun xs d => d = measure D xs

theorem determines_measured : Determines (Measured : List T → D → Prop) :=
  fun hd hd' => hd.trans hd'.symm

theorem Tracks.measured [LawfulSummary S] [LawfulDimension D S] :
    Tracks (Measured : List T → D → Prop) where
  start := rfl
  item := by
    rintro xs _ x rfl
    show _ = measure D (xs ++ [x])
    rw [measure_append]
    rfl
  tree := by
    rintro xs _ h t wf rfl
    show _ = measure D (xs ++ t.toList)
    rw [measure_append, wf.summary_eq, addSummary_itemsSum _ wf.toList_ne_nil]

/-! ## Paths -/

/-- `Path P root stack h pre sub post`: the entries of `stack`, the deepest
    first, lead from `root` down to its subtree `sub` of height `h`, which has
    the items `pre` before it and the items `post` after it. -/
inductive Path (P : List T → D → Prop) (root : SumTree T S) :
    List (StackEntry T S D) → Nat → List T → SumTree T S → List T → Prop where
  | root {h : Nat} (wf : root.Wf h) : Path P root [] h [] root []
  | child {stack : List (StackEntry T S D)} {h : Nat} {pre post : List T} {s : S}
      {css : List S} {l r : List (SumTree T S)} {c : SumTree T S} {e : StackEntry T S D}
      (path : Path P root stack (h + 1) pre (.internal (h + 1) s css (l ++ c :: r)) post)
      (tree : e.tree = .internal (h + 1) s css (l ++ c :: r)) (index : e.index = l.length)
      (position : P (pre ++ SumTree.toListForest l) e.position) :
      Path P root (e :: stack) h (pre ++ SumTree.toListForest l) c
        (SumTree.toListForest r ++ post)

/-- What is left for a loop that goes forward, in the subtrees behind a path. -/
def forwardCost : List (StackEntry T S D) → Nat
  | [] => 0
  | e :: stack =>
      (match e.tree with
        | .internal _ _ _ cts => SumTree.sizeForest (cts.drop (e.index + 1)) + 1
        | .leaf ..            => 1) + forwardCost stack

/-- What is left for a loop that goes backward, in the subtrees before a path. -/
def backwardCost : List (StackEntry T S D) → Nat
  | [] => 0
  | e :: stack =>
      (match e.tree with
        | .internal _ _ _ cts => SumTree.sizeForest (cts.take e.index) + 1
        | .leaf ..            => e.index + 1) + backwardCost stack

section Path

variable {P : List T → D → Prop} {root sub : SumTree T S} {stack : List (StackEntry T S D)}
  {h : Nat} {pre post : List T}

section

variable (path : Path P root stack h pre sub post)
include path

theorem Path.wf : sub.Wf h := by
  induction path with
  | root wf => exact wf
  | child _ _ _ _ ih =>
    cases ih with
    | internal _ _ hw => exact hw _ (by simp)

theorem Path.items : pre ++ sub.toList ++ post = root.toList := by
  induction path with
  | root => simp
  | child _ _ _ _ ih => simpa [append_assoc] using ih

theorem Path.length : stack.length + h = root.height := by
  induction path with
  | root wf => simp [wf.height_eq]
  | child _ _ _ _ ih => simp only [length_cons] at ih ⊢; omega

theorem Path.forwardCost_le : forwardCost stack + sub.size ≤ root.size := by
  induction path with
  | root => simp [forwardCost]
  | @child stack h pre post s css l r c e _ tree index _ ih =>
    have hdrop : (l ++ c :: r).drop (e.index + 1) = r := by simp [index]
    simp only [forwardCost, tree, hdrop, SumTree.size_internal, SumTree.sizeForest_append,
      SumTree.sizeForest_cons] at ih ⊢
    omega

theorem Path.backwardCost_le : backwardCost stack + sub.size ≤ root.size := by
  induction path with
  | root => simp [backwardCost]
  | @child stack h pre post s css l r c e _ tree index _ ih =>
    have htake : (l ++ c :: r).take e.index = l := by simp [index]
    simp only [backwardCost, tree, htake, SumTree.size_internal, SumTree.sizeForest_append,
      SumTree.sizeForest_cons] at ih ⊢
    omega

/-- The stack has room as long as the tree has at most 15 levels above its leaves. -/
theorem Path.pushEntry_spec (e : StackEntry T S D) :
    Ensures (fun st => st = e :: stack) (fun err => err = .stackFull ∧ 15 < root.height)
      (pushEntry stack e) := by
  have hlen := path.length
  unfold pushEntry
  split
  · rfl
  · next hfull =>
    simp only [stackCapacity] at hfull
    exact ⟨rfl, by omega⟩

end

/-- The position a backward search starts from below a path. -/
def parentPosition : List (StackEntry T S D) → D
  | parent :: _ => parent.position
  | []          => Dimension.zero S

theorem Path.parentPosition (tr : Tracks P) (path : Path P root stack h pre sub post) :
    P pre (parentPosition stack) := by
  cases path with
  | root => exact tr.start
  | child _ _ _ position => exact position

end Path

/-! ## Cutting a node -/

/-- `Cut t i left right`: the first `i` children or items of `t` hold `left`, and
    the others hold `right`. -/
inductive Cut : SumTree T S → Nat → List T → List T → Prop where
  | internal {h : Nat} {s : S} {css : List S} (before behind : List (SumTree T S)) :
      Cut (.internal h s css (before ++ behind)) before.length
        (SumTree.toListForest before) (SumTree.toListForest behind)
  | leaf {s : S} {iss : List S} (before behind : List T) :
      Cut (.leaf s (before ++ behind) iss) before.length before behind

variable {i : Nat} {left right its : List T} {iss : List S} {h : Nat} {s : S}
  {P : List T → D → Prop} {root : SumTree T S} {before after : List T}

theorem Cut.internal_inv {css : List S} (cut : Cut (.internal h s css cts) i left right) :
    ∃ l r, cts = l ++ r ∧ i = l.length ∧ left = SumTree.toListForest l ∧
      right = SumTree.toListForest r := by
  cases cut with
  | internal before behind => exact ⟨before, behind, rfl, rfl, rfl, rfl⟩

theorem Cut.leaf_inv (cut : Cut (.leaf s its iss) i left right) :
    ∃ l r, its = l ++ r ∧ i = l.length ∧ left = l ∧ right = r := by
  cases cut with
  | leaf => exact ⟨left, right, rfl, rfl, rfl, rfl⟩

theorem Cut.zero (t : SumTree T S) : Cut t 0 [] t.toList := by
  cases t with
  | internal h s css cts => simpa using Cut.internal (h := h) (s := s) [] cts
  | leaf s its iss => simpa using Cut.leaf (s := s) [] its

/-- All the children or items of a well-formed node, of which there are some. -/
theorem Cut.full {t : SumTree T S} (wf : t.Wf h) :
    Cut t t.childSummaries.length t.toList [] ∧ 0 < t.childSummaries.length := by
  cases wf with
  | @leaf items ne le =>
    refine ⟨?_, by simpa [SumTree.childSummaries] using length_pos_of_ne_nil ne⟩
    simpa [SumTree.childSummaries] using Cut.leaf (s := itemsSum (S := S) items)
      items []
  | @internal h cts ne le children =>
    refine ⟨?_, by simpa [SumTree.childSummaries] using length_pos_of_ne_nil ne⟩
    simpa [SumTree.childSummaries] using Cut.internal (h := h + 1)
      (s := itemsSum (S := S) (SumTree.toListForest cts)) cts []

/-! ## Cursors at rest -/

/-- The stack of a cursor that stands before the items `after`: on the first of
    them, or empty when there is none. -/
inductive Resting (P : List T → D → Prop) (root : SumTree T S) :
    List (StackEntry T S D) → List T → List T → Prop where
  | item {rest : List (StackEntry T S D)} {pre post l r : List T} {x : T} {s : S}
      {iss : List S} {e : StackEntry T S D}
      (path : Path P root rest 0 pre (.leaf s (l ++ x :: r) iss) post)
      (tree : e.tree = .leaf s (l ++ x :: r) iss) (index : e.index = l.length) :
      Resting P root (e :: rest) (pre ++ l) (x :: (r ++ post))
  | finished : Resting P root [] root.toList []

variable {stack : List (StackEntry T S D)}

theorem Resting.items (rest : Resting P root stack before after) :
    before ++ after = root.toList := by
  cases rest with
  | item path => simpa [append_assoc] using path.items
  | finished => simp

theorem Resting.isEmpty (rest : Resting P root stack before after) :
    stack.isEmpty = after.isEmpty := by
  cases rest <;> rfl

theorem Resting.isLeaf {e : StackEntry T S D} (rest : Resting P root (e :: stack) before after) :
    e.tree.isLeaf = true := by
  cases rest with
  | item _ tree => simp [tree, SumTree.isLeaf]

/-- The cursor has the items `before` behind it and the items `after` ahead. -/
structure Cursor.At (P : List T → D → Prop) (root : SumTree T S) (before after : List T)
    (c : Cursor T S D) : Prop where
  tree     : c.tree = root
  didSeek  : c.didSeek = true
  atEnd    : c.atEnd = after.isEmpty
  stack    : Resting P root c.stack before after
  position : P before c.position

/-- The cursor stands before the first item of a tree that has one. -/
structure Cursor.AtStart (P : List T → D → Prop) (root : SumTree T S)
    (c : Cursor T S D) : Prop where
  tree     : c.tree = root
  nonempty : root.isEmpty = false
  didSeek  : c.didSeek = true
  atEnd    : c.atEnd = false
  stack    : c.stack = []
  position : P [] c.position

theorem Cursor.At.items {c : Cursor T S D} (pos : c.At P root before after) :
    before ++ after = root.toList :=
  pos.stack.items

section At

variable {P : List T → D → Prop} {root : SumTree T S} {before after : List T} {c : Cursor T S D}

theorem Resting.length_le (rest : Resting P root stack before after) :
    stack.length ≤ root.height + 1 := by
  cases rest with
  | item path =>
    have := path.length
    simp only [length_cons]
    omega
  | finished => simp

theorem Cursor.At.item_eq (pos : c.At P root before after) : c.item = .ok after.head? := by
  have hseek := pos.didSeek
  have hrest := pos.stack
  generalize hstack : c.stack = stack at hrest
  cases hrest with
  | @item rest pre post l r x s iss e path tree index =>
    have hne : l.length ≠ (l ++ x :: r).length := by simp
    simp only [Cursor.item, Cursor.assertDidSeek, hseek, hstack, tree, index, hne, if_true,
      if_false, ok_bind, getIndex, getElem?_append_right (Nat.le_refl _), Nat.sub_self,
      getElem?_cons_zero, head?_cons, pure_eq_ok]
  | finished =>
    simp only [Cursor.item, Cursor.assertDidSeek, hseek, hstack, if_true, ok_bind,
      head?_nil, pure_eq_ok]

theorem Cursor.At.itemSummary_eq (pos : c.At P root before after) :
    c.itemSummary = .ok (after.head?.map Item.summary) := by
  have hseek := pos.didSeek
  have hrest := pos.stack
  generalize hstack : c.stack = stack at hrest
  cases hrest with
  | @item rest pre post l r x s iss e path tree index =>
    have wf := path.wf
    cases wf with
    | leaf =>
      have hne : l.length ≠ ((l ++ x :: r).map (Item.summary : T → S)).length := by simp
      have hget : ((l ++ x :: r).map (Item.summary : T → S))[l.length]? =
          some (Item.summary x) := by simp
      simp only [Cursor.itemSummary, Cursor.assertDidSeek, hseek, hstack, tree, index, hne, if_true,
        if_false, ok_bind, getIndex, hget, head?_cons, Option.map_some, pure_eq_ok]
  | finished =>
    simp only [Cursor.itemSummary, Cursor.assertDidSeek, hseek, hstack, if_true, ok_bind,
      head?_nil, Option.map_none, pure_eq_ok]

/-- The position behind the item that a cursor stands on. -/
def endOf (d : D) (after : List T) : D :=
  match after with
  | []     => d
  | x :: _ => Dimension.addSummary d (Item.summary x)

theorem Cursor.At.end_eq (pos : c.At P root before after) :
    c.«end» = .ok (endOf c.position after) := by
  simp only [Cursor.«end», pos.itemSummary_eq, ok_bind]
  cases after <;> rfl

end At

/-! ## Cursors on the move

    Between two passes of a forward loop the cursor is inside the node on top of
    the stack: about to enter it, or coming back from the child it points at. -/

inductive Walk (P : List T → D → Prop) (root : SumTree T S) :
    List (StackEntry T S D) → Bool → List T → List T → Prop where
  | enter {rest : List (StackEntry T S D)} {h : Nat} {pre post left right : List T}
      {sub : SumTree T S} {e : StackEntry T S D}
      (path : Path P root rest h pre sub post) (tree : e.tree = sub)
      (cut : Cut sub e.index left right)
      (position : sub.isLeaf = false → P (pre ++ left) e.position) :
      Walk P root (e :: rest) true (pre ++ left) (right ++ post)
  | resume {rest : List (StackEntry T S D)} {h : Nat} {pre post left right : List T}
      {sub : SumTree T S} {e : StackEntry T S D}
      (path : Path P root rest h pre sub post) (tree : e.tree = sub)
      (internal : sub.isLeaf = false) (cut : Cut sub (e.index + 1) left right) :
      Walk P root (e :: rest) false (pre ++ left) (right ++ post)
  | finished {b : Bool} : Walk P root [] b root.toList []

variable {b : Bool} {e : StackEntry T S D} {rest : List (StackEntry T S D)} {s : S} {css : List S}
  {P : List T → D → Prop} {root : SumTree T S} {before after : List T} {h : Nat}
  {pre post : List T} {d : D}

/-- On the move inside an internal node: the children behind and ahead. -/
theorem Walk.internal_inv {hh : Nat} (walk : Walk P root (e :: rest) b before after)
    (htree : e.tree = .internal hh s css cts) :
    ∃ h pre post l r, hh = h + 1 ∧ cts = l ++ r ∧ css = cts.map SumTree.summary ∧
      (∀ c ∈ cts, c.Wf h) ∧ cts.length ≤ nodeCapacity ∧
      Path P root rest (h + 1) pre (.internal (h + 1) s css cts) post ∧
      (if b then e.index else e.index + 1) = l.length ∧
      before = pre ++ SumTree.toListForest l ∧ after = SumTree.toListForest r ++ post ∧
      (b = true → P before e.position) := by
  cases walk with
  | @enter _ h pre post left right sub _ path tree cut position =>
    obtain rfl : sub = .internal hh s css cts := tree.symm.trans htree
    obtain ⟨l, r, rfl, hidx, rfl, rfl⟩ := cut.internal_inv
    have wf := path.wf
    cases wf with
    | internal ne le children =>
      exact ⟨_, pre, post, l, r, rfl, rfl, rfl, children, le, path, by simpa using hidx, rfl, rfl,
        fun _ => position rfl⟩
  | @resume _ h pre post left right sub _ path tree internal cut =>
    obtain rfl : sub = .internal hh s css cts := tree.symm.trans htree
    obtain ⟨l, r, rfl, hidx, rfl, rfl⟩ := cut.internal_inv
    have wf := path.wf
    cases wf with
    | internal ne le children =>
      exact ⟨_, pre, post, l, r, rfl, rfl, rfl, children, le, path, by simpa using hidx, rfl, rfl,
        by simp⟩

/-- On the move inside a leaf: the items behind and ahead. -/
theorem Walk.leaf_inv (walk : Walk P root (e :: rest) b before after)
    (htree : e.tree = .leaf s its iss) :
    ∃ pre post l r, b = true ∧ its = l ++ r ∧ iss = its.map Item.summary ∧
      its.length ≤ nodeCapacity ∧ Path P root rest 0 pre (.leaf s its iss) post ∧
      e.index = l.length ∧ before = pre ++ l ∧ after = r ++ post := by
  cases walk with
  | @enter _ h pre post left right sub _ path tree cut position =>
    obtain rfl : sub = .leaf s its iss := tree.symm.trans htree
    obtain ⟨l, r, rfl, hidx, rfl, rfl⟩ := cut.leaf_inv
    have wf := path.wf
    cases wf with
    | leaf ne le => exact ⟨pre, post, left, right, rfl, rfl, rfl, le, path, hidx, rfl, rfl⟩
  | @resume _ h pre post left right sub _ path tree internal cut =>
    obtain rfl : sub = .leaf s its iss := tree.symm.trans htree
    exact absurd internal (by simp [SumTree.isLeaf])

/-- Entering a child that a path leads to. -/
theorem Path.enter {root sub : SumTree T S} (path : Path P root stack h pre sub post)
    (hd : P pre d) :
    Walk P root ({ tree := sub, index := 0, position := d } :: stack) true pre
      (sub.toList ++ post) := by
  have := Walk.enter path (e := { tree := sub, index := 0, position := d }) rfl (Cut.zero sub)
    (fun _ => by simpa using hd)
  simpa using this

/-- Entering the tree itself. -/
theorem Walk.whole (tr : Tracks P) (wf : root.Wf h) :
    Walk P root [⟨root, 0, Dimension.zero S⟩] true [] root.toList := by
  simpa using (Path.root wf).enter tr.start

/-- Coming back from the child that the top of the stack points at. -/
theorem Path.leave {root sub : SumTree T S} (path : Path P root stack h pre sub post) :
    Walk P root stack false (pre ++ sub.toList) post := by
  cases path with
  | root => simpa using Walk.finished
  | @child stack h pre post s css l r sub e path tree index position =>
    have hcut : Cut (.internal (h + 1) s css ((l ++ [sub]) ++ r)) (l ++ [sub]).length
        (SumTree.toListForest (l ++ [sub])) (SumTree.toListForest r) := .internal _ _
    have := Walk.resume (e := e) path tree rfl (by simpa [index] using hcut)
    simpa [append_assoc] using this

/-- The work left in a forward loop. -/
def walkCost : List (StackEntry T S D) → Bool → Nat
  | [], _ => 0
  | e :: stack, enter =>
      (match e.tree with
        | .internal _ _ _ cts =>
            SumTree.sizeForest (cts.drop (if enter then e.index else e.index + 1)) + 1
        | .leaf .. => 1) + forwardCost stack

theorem walkCost_false (stack : List (StackEntry T S D)) :
    walkCost stack false = forwardCost stack := by
  cases stack <;> rfl

theorem sizeForest_drop_le (n : Nat) (cts : List (SumTree T S)) :
    SumTree.sizeForest (cts.drop n) ≤ SumTree.sizeForest cts := by
  have h := SumTree.sizeForest_append (cts.take n) (cts.drop n)
  rw [take_append_drop] at h
  omega

/-- The node on top of the stack leaves less work than its size. -/
theorem walkCost_lt (e : StackEntry T S D) (stack : List (StackEntry T S D)) (b : Bool) :
    walkCost (e :: stack) b < e.tree.size + forwardCost stack := by
  simp only [walkCost]
  split
  · next cts htree =>
    have hdrop := sizeForest_drop_le (if b then e.index else e.index + 1) cts
    rw [htree, SumTree.size_internal]
    omega
  · have := e.tree.two_le_size
    omega

/-- The work left inside an internal node whose children `r` are ahead. -/
theorem walkCost_internal {l r : List (SumTree T S)} (htree : e.tree = .internal h s css (l ++ r))
    (hindex : (if b then e.index else e.index + 1) = l.length) :
    walkCost (e :: rest) b = SumTree.sizeForest r + 1 + forwardCost rest := by
  have hdrop : (l ++ r).drop (if b then e.index else e.index + 1) = r := by simp [hindex]
  simp only [walkCost, htree, hdrop]

theorem walkCost_leaf (htree : e.tree = .leaf s its iss) :
    walkCost (e :: rest) b = 1 + forwardCost rest := by
  simp only [walkCost, htree]

/-- Descending into the child `c` decreases the work left. -/
theorem walkCost_descend {e' : StackEntry T S D} {l passed r : List (SumTree T S)}
    {c : SumTree T S} (htree : e.tree = .internal h s css (l ++ (passed ++ c :: r)))
    (hindex : (if b then e.index else e.index + 1) = l.length)
    (htree' : e'.tree = .internal h s css (l ++ (passed ++ c :: r)))
    (hindex' : e'.index = l.length + passed.length) :
    walkCost (⟨c, 0, d⟩ :: e' :: rest) true < walkCost (e :: rest) b := by
  have hlt := walkCost_lt (⟨c, 0, d⟩ : StackEntry T S D) (e' :: rest) true
  have hfc : forwardCost (e' :: rest) = SumTree.sizeForest r + 1 + forwardCost rest := by
    rw [← walkCost_false]
    exact walkCost_internal (l := l ++ passed ++ [c]) (by simpa [append_assoc] using htree')
      (by simp [hindex']; omega)
  rw [walkCost_internal htree hindex, SumTree.sizeForest_append, SumTree.sizeForest_cons]
  simp only at hlt
  omega

theorem Walk.cost_lt (walk : Walk P root stack b before after) : walkCost stack b < root.size := by
  cases walk with
  | @enter rest h pre post left right sub e path tree =>
    have hle := path.forwardCost_le
    have hlt := walkCost_lt e rest true
    subst tree
    omega
  | @resume rest h pre post left right sub e path tree =>
    have hle := path.forwardCost_le
    have hlt := walkCost_lt e rest false
    subst tree
    omega
  | finished =>
    have := root.two_le_size
    simp only [walkCost]
    omega

/-- A walk that leaves an item does no more than one from the root either. -/
theorem Resting.cost_lt {x : T} (resting : Resting P root stack before (x :: after)) (b : Bool) :
    walkCost stack b < root.size := by
  cases resting with
  | @item rest pre post l r x s iss e path tree =>
    have hle := path.forwardCost_le
    have hlt := walkCost_lt e rest b
    rw [tree] at hlt
    omega

/-- A cursor at rest may walk on from the item it stands on. -/
theorem Resting.walk (rest : Resting P root stack before after) :
    Walk P root stack true before after := by
  cases rest with
  | @item rest pre post l r x s iss e path tree index =>
    have hcut : Cut (.leaf s (l ++ x :: r) iss) l.length l (x :: r) := .leaf _ _
    have := Walk.enter (e := e) path tree (by simpa [index] using hcut) (by simp [SumTree.isLeaf])
    simpa using this
  | finished => exact .finished

end Gpui
