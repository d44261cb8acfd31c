import Gpui.SumTree.CursorPath

/-! # SumTree: the items next to a cursor

    `next_item` and `prev_item` look for the neighbouring leaf along the stack. -/

set_option linter.unusedSectionVars false

namespace Gpui

open List

open Exec (Returns Ensures ok_bind)

variable {T S D : Type} [Summary S] [Item T S] [Dimension D S]

namespace SumTree

/-! ## The leaves at the edges -/

variable {t : SumTree T S}

theorem Wf.leftmostLeaf {h : Nat} (wf : Wf h t) :
    ∃ s its iss, t.leftmostLeaf = .ok (.leaf s its iss) ∧ its.head? = t.toList.head? := by
  induction wf with
  | @leaf items ne le => exact ⟨_, _, _, rfl, by simp⟩
  | @internal h cts ne le children ih =>
    obtain ⟨c, cs, rfl⟩ := exists_cons_of_ne_nil ne
    obtain ⟨s, its, iss, hleaf, hhead⟩ := ih c (by simp)
    refine ⟨s, its, iss, by simpa [SumTree.leftmostLeaf] using hleaf, ?_⟩
    have hne := (children c (by simp)).toList_ne_nil
    rw [hhead, toList_internal, toListForest_cons, head?_append_of_ne_nil _ hne]

theorem rightmostLeafForest_append (cs : List (SumTree T S)) (c : SumTree T S) :
    rightmostLeafForest (cs ++ [c]) = c.rightmostLeaf := by
  induction cs with
  | nil => rw [nil_append, rightmostLeafForest]
  | cons b cs ih =>
    cases cs with
    | nil => rw [cons_append, nil_append, rightmostLeafForest, rightmostLeafForest]
    | cons d cs => rw [cons_append, cons_append, rightmostLeafForest, ← ih]; rfl

theorem Wf.rightmostLeaf {h : Nat} (wf : Wf h t) :
    ∃ s its iss, t.rightmostLeaf = .ok (.leaf s its iss) ∧ its.getLast? = t.toList.getLast? := by
  induction wf with
  | @leaf items ne le => exact ⟨_, _, _, by rw [SumTree.rightmostLeaf], by simp⟩
  | @internal h cts ne le children ih =>
    obtain ⟨cs, c, rfl⟩ := eq_nil_or_concat'  cts |>.resolve_left ne
    obtain ⟨s, its, iss, hleaf, hlast⟩ := ih c (by simp)
    refine ⟨s, its, iss, ?_, ?_⟩
    · rw [SumTree.rightmostLeaf, rightmostLeafForest_append, hleaf]
    · have hne := (children c (by simp)).toList_ne_nil
      rw [hlast, toList_internal, toListForest_append, toListForest_cons, toListForest_nil,
        append_nil, getLast?_append_of_ne_nil _ hne]

theorem WellFormed.first_eq (wf : t.WellFormed) :
    t.first = .ok t.toList.head? := by
  rcases wf with rfl | ⟨h, _, wf⟩
  · rfl
  · obtain ⟨s, its, iss, hleaf, hhead⟩ := wf.leftmostLeaf
    simp [first, hleaf, nodeItems, hhead]

theorem WellFormed.last_eq (wf : t.WellFormed) :
    t.last = .ok t.toList.getLast? := by
  rcases wf with rfl | ⟨h, _, wf⟩
  · simp [last, new, rightmostLeaf, nodeItems]
  · obtain ⟨s, its, iss, hleaf, hlast⟩ := wf.rightmostLeaf
    simp [last, hleaf, nodeItems, hlast]

end SumTree

/-! ## Along the stack -/

section Path

variable {P : List T → D → Prop} {root sub : SumTree T S} {stack : List (StackEntry T S D)}
  {h : Nat} {pre post : List T}

theorem Path.nextLeaf (path : Path P root stack h pre sub post) :
    (post = [] ∧ Cursor.nextLeaf stack = .ok none) ∨
      ∃ s its iss, Cursor.nextLeaf stack = .ok (some (.leaf s its iss)) ∧
        its.head? = post.head? ∧ post ≠ [] := by
  induction path with
  | root => exact .inl ⟨rfl, rfl⟩
  | @child stack h pre post s css l r c e path tree index position ih =>
    have hsub : checkedSub (l ++ c :: r).length 1 = .ok (l.length + r.length) := by
      simp [checkedSub]
    cases r with
    | nil =>
      have hrec : Cursor.nextLeaf (e :: stack) = Cursor.nextLeaf stack := by
        rw [Cursor.nextLeaf, tree]
        simp only [SumTree.childTrees, ok_bind, hsub, index]
        rw [if_neg (by simp)]
      rw [hrec]
      simpa using ih
    | cons d r =>
      have hwf : d.Wf h := by
        have hw := path.wf
        cases hw with
        | internal _ _ children => exact children d (by simp)
      have hget : getIndex (l ++ c :: d :: r) (l.length + 1) = .ok d := by
        simp [getIndex]
      obtain ⟨s', its, iss, hleaf, hhead⟩ := hwf.leftmostLeaf
      have hne := hwf.toList_ne_nil
      refine .inr ⟨s', its, iss, ?_, ?_, by simp [hne]⟩
      · rw [Cursor.nextLeaf, tree]
        simp only [SumTree.childTrees, ok_bind, hsub, index, hget, hleaf]
        rw [if_pos (by simp)]
        rfl
      · rw [hhead, SumTree.toListForest_cons, append_assoc,
          head?_append_of_ne_nil _ hne]

theorem Path.prevLeaf (path : Path P root stack h pre sub post) :
    (pre = [] ∧ Cursor.prevLeaf stack = .ok none) ∨
      ∃ s its iss, Cursor.prevLeaf stack = .ok (some (.leaf s its iss)) ∧
        its.getLast? = pre.getLast? ∧ pre ≠ [] := by
  induction path with
  | root => exact .inl ⟨rfl, rfl⟩
  | @child stack h pre post s css l r c e path tree index position ih =>
    rcases eq_nil_or_concat' l with rfl | ⟨l, d, rfl⟩
    · have hrec : Cursor.prevLeaf (e :: stack) = Cursor.prevLeaf stack := by
        rw [Cursor.prevLeaf, if_neg (by simpa using index)]
      rw [hrec]
      simpa using ih
    · have hwf : d.Wf h := by
        have hw := path.wf
        cases hw with
        | internal _ _ children => exact children d (by simp)
      have hsub : checkedSub (l ++ [d]).length 1 = .ok l.length := by simp [checkedSub]
      have hget : getIndex (l ++ [d] ++ c :: r) l.length = .ok d := by simp [getIndex]
      obtain ⟨s', its, iss, hleaf, hlast⟩ := hwf.rightmostLeaf
      have hne := hwf.toList_ne_nil
      refine .inr ⟨s', its, iss, ?_, ?_, by simp [hne]⟩
      · rw [Cursor.prevLeaf, tree, index]
        simp only [SumTree.childTrees, ok_bind, hsub, hget, hleaf]
        rw [if_pos (by simp)]
        rfl
      · rw [hlast, SumTree.toListForest_append, SumTree.toListForest_cons,
          SumTree.toListForest_nil, append_nil, ← append_assoc,
          getLast?_append_of_ne_nil _ hne]

end Path

/-! ## `next_item` and `prev_item` -/

namespace Cursor

variable {P : List T → D → Prop} {root : SumTree T S} {before after : List T} {c : Cursor T S D}

/-- On an item, the next item is the second of those ahead. -/
theorem At.nextItem_eq (pos : c.At P root before after) :
    c.nextItem = .ok after.tail.head? := by
  have hseek := pos.didSeek
  have hend := pos.atEnd
  have hrest := pos.stack
  generalize hstack : c.stack = stack at hrest
  cases hrest with
  | @item rest pre post l r x s iss e path tree index =>
    have hsub : checkedSub (l ++ x :: r).length 1 = .ok (l.length + r.length) := by
      simp [checkedSub]
    simp only [Cursor.nextItem, assertDidSeek, hseek, hstack, tree, index, SumTree.nodeItems,
      hsub, if_true, ok_bind, tail_cons]
    cases r with
    | nil =>
      rw [if_pos (by simp)]
      rcases path.nextLeaf with ⟨rfl, hnone⟩ | ⟨s', its, iss', hsome, hhead, hne⟩
      · simp only [hnone, ok_bind]
        rfl
      · obtain ⟨y, ys, rfl⟩ := exists_cons_of_ne_nil hne
        simp only [hsome, ok_bind, hhead]
        rfl
    | cons y r =>
      have hget : getIndex (l ++ x :: y :: r) (l.length + 1) = .ok y := by simp [getIndex]
      rw [if_neg (by simp)]
      simp only [hget, ok_bind]
      rfl
  | finished =>
    have hat : c.atEnd = true := hend
    simp only [Cursor.nextItem, assertDidSeek, hseek, hstack, hat, if_true, ok_bind]
    rfl

/-- The previous item is the last of those behind. -/
theorem At.prevItem_eq (hroot : root.WellFormed) (pos : c.At P root before after) :
    c.prevItem = .ok before.getLast? := by
  have hseek := pos.didSeek
  have hend := pos.atEnd
  have hrest := pos.stack
  generalize hstack : c.stack = stack at hrest
  cases hrest with
  | @item rest pre post l r x s iss e path tree index =>
    simp only [Cursor.prevItem, assertDidSeek, hseek, hstack, tree, index, SumTree.nodeItems,
      if_true, ok_bind]
    rcases eq_nil_or_concat' l with rfl | ⟨l, y, rfl⟩
    · rw [if_pos (by simp)]
      rcases path.prevLeaf with ⟨rfl, hnone⟩ | ⟨s', its, iss', hsome, hlast, hne⟩
      · simp only [hnone, ok_bind]
        rfl
      · simp only [hsome, ok_bind, hlast, append_nil,
          getLast?_eq_some_getLast hne]
        rfl
    · have hsub : checkedSub (l ++ [y]).length 1 = .ok l.length := by simp [checkedSub]
      have hget : getIndex (l ++ [y] ++ x :: r) l.length = .ok y := by simp [getIndex]
      simp only [hsub, hget, ok_bind]
      simp
  | finished =>
    have hat : c.atEnd = true := hend
    simp only [Cursor.prevItem, assertDidSeek, hseek, hstack, hat, if_true, ok_bind,
      pos.tree]
    exact hroot.last_eq

theorem AtStart.item_eq (pos : c.AtStart P root) : c.item = .ok none := by
  simp [item, assertDidSeek, pos.didSeek, pos.stack]

theorem AtStart.nextItem_eq (hroot : root.WellFormed) (pos : c.AtStart P root) :
    c.nextItem = .ok root.toList.head? := by
  simp only [nextItem, assertDidSeek, pos.didSeek, pos.stack, pos.atEnd, pos.tree, if_true,
    ok_bind]
  exact hroot.first_eq

theorem AtStart.prevItem_eq (pos : c.AtStart P root) : c.prevItem = .ok none := by
  simp only [prevItem, assertDidSeek, pos.didSeek, pos.stack, pos.atEnd, if_true, ok_bind]
  rfl

end Cursor

end Gpui
