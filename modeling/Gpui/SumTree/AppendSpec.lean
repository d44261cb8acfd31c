import Gpui.SumTree.Append

/-! # SumTree: what appending does

    One specification for each of the three rebalancing routines, by induction
    on the height of the tree that is descended into, and from them the
    specification of `append`: it keeps well-formedness, joins the item lists,
    and can only fail by a height that no longer fits `u8`. -/

set_option linter.unusedSectionVars false

namespace Gpui

open List

open Exec (Returns Ensures ok_bind pure_eq_ok returns_ok)

variable {T S : Type}

/-! ## Arrays -/

namespace ArrayVec

variable {α : Type} {xs : List α}

theorem extend_of_le {ys : List α} (h : xs.length + ys.length ≤ nodeCapacity) :
    extend xs ys = .ok (xs ++ ys) := if_pos h

theorem collect_of_le (h : xs.length ≤ nodeCapacity) : collect xs = .ok xs := by
  rw [collect, extend_of_le (by simpa using h), nil_append]

theorem push_of_lt {x : α} (h : xs.length < nodeCapacity) : push xs x = .ok (xs ++ [x]) := if_pos h

theorem push_nil (x : α) : push [] x = .ok [x] := rfl

theorem insertFront_of_lt {x : α} (h : xs.length < nodeCapacity) :
    insertFront xs x = .ok (x :: xs) := if_pos h

theorem setLast_append (l : List α) (x y : α) : setLast (l ++ [x]) y = .ok (l ++ [y]) := by
  simp [setLast]

theorem setFirst_cons (l : List α) (x y : α) : setFirst (x :: l) y = .ok (y :: l) := by
  simp [setFirst]

end ArrayVec

theorem one_le_nodeCapacity : 1 ≤ nodeCapacity := by decide

theorem checkedSub_of_le {h k : Nat} (hle : k ≤ h) : checkedSub h k = .ok (h - k) := if_pos hle

namespace SumTree

theorem midpoint_eq (n : Nat) : midpoint n = (n + 1) / 2 := by
  unfold midpoint; omega

variable [Summary S] [Item T S]

/-! ## The sibling that is split off -/

/-- The items of the tree a routine hands back, if any. -/
@[simp] def splitList : Option (SumTree T S) → List T
  | none   => []
  | some t => t.toList

/-- `r` is `self` with the items `new` added on the right, at height `h`; the
    root gained at most `gain` children, and was split only for want of room. -/
structure PushedRight (h : Nat) (self : SumTree T S) (new : List T) (gain : Nat)
    (r : SumTree T S × Option (SumTree T S)) : Prop where
  wf    : Wf h r.1
  split : ∀ s ∈ r.2, Wf h s
  items : r.1.toList ++ splitList r.2 = self.toList ++ new
  size  : r.2 = none → r.1.rootSize ≤ self.rootSize + gain
  full  : r.2 ≠ none → nodeCapacity < self.rootSize + gain

/-- `r` is `large` with the items `new` added on the left, at height `h`; the
    tree handed back holds the items left of the others. -/
structure PushedLeft (h : Nat) (large : SumTree T S) (new : List T)
    (r : SumTree T S × Option (SumTree T S)) : Prop where
  wf    : Wf h r.1
  split : ∀ s ∈ r.2, Wf h s
  items : splitList r.2 ++ r.1.toList = new ++ large.toList

variable [LawfulSummary S]

/-! ## Splitting a row in two -/

variable {n h : Nat}

/-- Both halves of a row that outgrew a node make a node. -/
theorem split_fits (h : nodeCapacity < n) (hn : n ≤ 2 * nodeCapacity) :
    (n + 1) / 2 ≤ nodeCapacity ∧ n - (n + 1) / 2 ≤ nodeCapacity ∧
      0 < (n + 1) / 2 ∧ (n + 1) / 2 < n := by
  omega

/-- Both halves of a row that outgrew a node are collected, and so are their summaries. -/
theorem collect_halves {α : Type} (xs : List α) (f : α → S) {mid : Nat} (hl : mid ≤ nodeCapacity)
    (hr : xs.length - mid ≤ nodeCapacity) :
    ArrayVec.collect (xs.take mid) = .ok (xs.take mid) ∧
      ArrayVec.collect (xs.drop mid) = .ok (xs.drop mid) ∧
      ArrayVec.collect ((xs.take mid).map f) = .ok ((xs.take mid).map f) ∧
      ArrayVec.collect ((xs.drop mid).map f) = .ok ((xs.drop mid).map f) := by
  have hcl : (xs.take mid).length ≤ nodeCapacity := by rw [length_take]; omega
  have hcr : (xs.drop mid).length ≤ nodeCapacity := by rw [length_drop]; omega
  exact ⟨ArrayVec.collect_of_le hcl, ArrayVec.collect_of_le hcr,
    ArrayVec.collect_of_le (by simpa using hcl), ArrayVec.collect_of_le (by simpa using hcr)⟩

/-- Both halves of a row of children that outgrew a node make a node. -/
theorem Wf.splitChildren {mid : Nat} {cts : List (SumTree T S)}
    (hw : ∀ c ∈ cts, Wf h c) (hlo : 0 < mid) (hhi : mid < cts.length)
    (hl : mid ≤ nodeCapacity) (hr : cts.length - mid ≤ nodeCapacity) :
    Wf (h + 1) (.internal (h + 1) (sum ((cts.take mid).map summary))
        ((cts.take mid).map summary) (cts.take mid)) ∧
      Wf (h + 1) (.internal (h + 1) (sum ((cts.drop mid).map summary))
        ((cts.drop mid).map summary) (cts.drop mid)) := by
  constructor
  · refine Wf.ofChildren (fun c hc => hw c (mem_of_mem_take hc)) ?_ ?_
    · exact ne_nil_of_length_pos (by simp; omega)
    · simp; omega
  · refine Wf.ofChildren (fun c hc => hw c (mem_of_mem_drop hc)) ?_ ?_
    · exact ne_nil_of_length_pos (by simp; omega)
    · simpa using hr

/-- Both halves of a row of items that outgrew a leaf make a leaf. -/
theorem Wf.splitItems {mid : Nat} (its : List T) (hlo : 0 < mid) (hhi : mid < its.length)
    (hl : mid ≤ nodeCapacity) (hr : its.length - mid ≤ nodeCapacity) :
    Wf 0 (.leaf (itemsSum (its.take mid)) (its.take mid) ((its.take mid).map Item.summary)) ∧
      Wf 0 (.leaf (itemsSum (its.drop mid)) (its.drop mid)
        ((its.drop mid).map Item.summary)) := by
  constructor
  · refine .leaf (ne_nil_of_length_pos (by simp; omega)) (by simp; omega)
  · refine .leaf (ne_nil_of_length_pos (by simp; omega)) (by simpa using hr)

theorem toListForest_take_append_drop (mid : Nat) (cts : List (SumTree T S)) :
    toListForest (cts.take mid) ++ toListForest (cts.drop mid) = toListForest cts := by
  rw [← toListForest_append, take_append_drop]

/-! ## `push_tree_recursive` -/

theorem pushChildren_spec {s : S} {cts : List (SumTree T S)} (new : List (SumTree T S))
    (hw : ∀ c ∈ cts ++ new, Wf h c) (hne : cts ≠ [])
    (hc : cts.length ≤ nodeCapacity) (hnew : new.length ≤ nodeCapacity)
    (hs : s = itemsSum (toListForest (cts ++ new))) :
    Returns (fun r => Wf (h + 1) r.1 ∧ (∀ t ∈ r.2, Wf (h + 1) t) ∧
        r.1.toList ++ splitList r.2 = toListForest cts ++ toListForest new ∧
        (r.2 = none → r.1.rootSize ≤ cts.length + new.length) ∧
        (r.2 ≠ none → nodeCapacity < cts.length + new.length))
      (pushChildren (h + 1) s (cts.map summary) cts (new.map summary) new) := by
  have hlen : (cts ++ new).length = cts.length + new.length := length_append
  unfold pushChildren
  by_cases hlt : nodeCapacity < cts.length + new.length
  · -- the node is split at the midpoint
    obtain ⟨hl, hr, hlo, hhi⟩ := split_fits hlt (by omega)
    obtain ⟨hleft, hright⟩ := Wf.splitChildren hw hlo (by omega) hl (by omega)
    obtain ⟨hcl, hcr, hsl, hsr⟩ := collect_halves (cts ++ new) summary hl (by omega)
    simp only [if_pos hlt, midpoint_eq, ← map_append, ← map_take, ← map_drop]
    rw [hsl, hsr, hcl, hcr]
    simp only [ok_bind, pure_eq_ok, returns_ok]
    refine ⟨hleft, ?_, ?_, by simp, fun _ => hlt⟩
    · intro t ht
      rw [Option.mem_some_iff] at ht
      exact ht ▸ hright
    · simp only [toList_internal, splitList]
      rw [toListForest_take_append_drop, toListForest_append]
  · -- the children fit
    have hle : cts.length + new.length ≤ nodeCapacity := by omega
    rw [if_neg hlt, ArrayVec.extend_of_le (by simpa using hle), ArrayVec.extend_of_le hle]
    simp only [ok_bind, pure_eq_ok, returns_ok, ← map_append]
    refine ⟨?_, by simp, by simp, fun _ => by simp, by simp⟩
    rw [hs]
    exact .internal (by simp [hne]) (by omega) hw

theorem pushItems_spec {its : List T} {other : SumTree T S} (hne : its ≠ [])
    (hle : its.length ≤ nodeCapacity) (wfo : Wf 0 other) :
    Returns (PushedRight 0 (.leaf (itemsSum its) its (its.map Item.summary)) other.toList
        other.rootSize) (pushItems (itemsSum its) its (its.map Item.summary) other) := by
  cases wfo with
  | @leaf new hne' hle' =>
    have hlen : (its ++ new).length = its.length + new.length := length_append
    unfold pushItems
    simp only [nodeItems, childSummaries, summary, ok_bind]
    by_cases hlt : nodeCapacity < its.length + new.length
    · obtain ⟨hl, hr, hlo, hhi⟩ := split_fits hlt (by omega)
      obtain ⟨hleft, hright⟩ := Wf.splitItems (its ++ new) hlo (by omega) hl (by omega)
      obtain ⟨hcl, hcr, hsl, hsr⟩ := collect_halves (its ++ new) Item.summary hl (by omega)
      simp only [if_pos hlt, midpoint_eq, ← map_append, ← map_take, ← map_drop]
      rw [hcl, hcr, hsl, hsr]
      simp only [ok_bind, pure_eq_ok, returns_ok]
      refine ⟨hleft, ?_, ?_, by simp, fun _ => hlt⟩
      · intro t ht
        rw [Option.mem_some_iff] at ht
        exact ht ▸ hright
      · simp only [toList_leaf, splitList, take_append_drop]
    · have hle2 : its.length + new.length ≤ nodeCapacity := by omega
      rw [if_neg hlt, ArrayVec.extend_of_le hle2, ArrayVec.extend_of_le (by simpa using hle2)]
      simp only [ok_bind, pure_eq_ok, returns_ok, ← map_append]
      refine ⟨?_, by simp, by simp, fun _ => by simp [rootSize], by simp⟩
      rw [← itemsSum_append its hne']
      exact .leaf (by simp [hne]) (by omega)

/-- `push_tree_last` runs the push on the last tree of the row. -/
theorem pushTreeLast_append (l : List (SumTree T S)) (c other : SumTree T S) :
    pushTreeLast (l ++ [c]) other =
      (pushTreeRecursive c other).map (fun r => (l ++ [r.1], r.1.summary, r.2)) := by
  induction l with
  | nil =>
    simp only [nil_append, pushTreeLast]
    cases pushTreeRecursive c other <;> rfl
  | cons d l ih =>
    obtain ⟨e, l', hl'⟩ := exists_cons_of_ne_nil (concat_ne_nil c l)
    rw [hl'] at ih
    rw [cons_append, hl', pushTreeLast]
    simp only [ih]
    cases pushTreeRecursive c other <;> rfl

theorem Wf.ofAppend {l : List (SumTree T S)} {c c' : SumTree T S}
    (hw : ∀ d ∈ l ++ [c], Wf h d) (hc' : Wf h c') : ∀ d ∈ l ++ [c'], Wf h d := by
  intro d hd
  rcases mem_append.mp hd with hd | hd
  · exact hw d (mem_append_left _ hd)
  · rw [mem_singleton.mp hd]
    exact hc'

/-- **`push_tree_recursive`** adds a tree that is not higher than `self`; it
    returns, at the height of `self`. -/
theorem pushTreeRecursive_spec : ∀ {m : Nat} {self other : SumTree T S},
    Wf n self → Wf m other → m ≤ n →
      Returns (PushedRight n self other.toList (if m = n then other.rootSize else 1))
        (pushTreeRecursive self other) := by
  induction n with
  | zero =>
    intro m self other wf wfo hle
    obtain rfl : m = 0 := by omega
    cases wf with
    | leaf hne hle =>
      exact pushItems_spec hne hle wfo
  | succ h ih =>
    intro m self other wf wfo hle
    cases wf with
    | @internal _ cts hne hlen hw =>
      rw [pushTreeRecursive, wfo.height_eq, checkedSub_of_le hle, wfo.summary_eq,
        ← itemsSum_append _ wfo.toList_ne_nil]
      simp only [ok_bind]
      by_cases h0 : h + 1 - m = 0
      · -- same height: the children of `other` are taken over
        obtain rfl : m = h + 1 := by omega
        cases wfo with
        | @internal _ ots hne' hlen' hw' =>
          simp only [if_pos h0, childSummaries, childTrees, ok_bind]
          rw [ArrayVec.collect_of_le (by simpa using hlen'), ok_bind,
            ArrayVec.collect_of_le hlen', ok_bind]
          have hall : ∀ c ∈ cts ++ ots, Wf h c := fun c hc =>
            (mem_append.mp hc).elim (hw c) (hw' c)
          refine (pushChildren_spec _ hall hne hlen hlen' (by simp)).imp ?_
          rintro r ⟨hwf, hsplit, hitems, hsize, hfull⟩
          exact ⟨hwf, hsplit, by simpa using hitems, by simpa using hsize,
            by simpa using hfull⟩
      · rw [if_neg h0]
        by_cases h1 : h + 1 - m = 1 ∧ other.isUnderflowing = false
        · -- one level apart and full enough: `other` becomes a child
          obtain rfl : m = h := by omega
          have hall : ∀ c ∈ cts ++ [other], Wf m c := fun c hc =>
            (mem_append.mp hc).elim (hw c) (fun hc => mem_singleton.mp hc ▸ wfo)
          simp only [if_pos h1, ArrayVec.push_nil, ok_bind, ← wfo.summary_eq]
          refine (pushChildren_spec [other] hall hne hlen
            one_le_nodeCapacity (by simp)).imp ?_
          rintro r ⟨hwf, hsplit, hitems, hsize, hfull⟩
          exact ⟨hwf, hsplit, by simpa using hitems, by simpa using hsize,
            by simpa using hfull⟩
        · -- otherwise it is pushed into the last child
          rw [if_neg h1]
          have hne1 : m ≠ h + 1 := by omega
          rw [if_neg hne1]
          obtain ⟨l, c, rfl⟩ : ∃ l c, cts = l ++ [c] :=
            ⟨cts.dropLast, cts.getLast hne, (dropLast_append_getLast hne).symm⟩
          have hwc : Wf h c := hw c (by simp)
          obtain ⟨⟨c', split⟩, hrec, hwf', hsplit', hitems', -, -⟩ := ih hwc wfo (by omega)
          have hw' : ∀ d ∈ l ++ [c'], Wf h d := Wf.ofAppend hw hwf'
          rw [pushTreeLast_append, hrec]
          simp only [Except.map, ok_bind, map_append, map_cons, map_nil,
            ArrayVec.setLast_append]
          have hfold : List.map summary l ++ [c'.summary] = (l ++ [c']).map summary := by simp
          rw [hfold]
          cases split with
          | none =>
            simp only [splitList, append_nil] at hitems'
            refine (pushChildren_spec [] (by simpa using hw') (by simp)
              (by simpa using hlen) (by simp) (by simp [hitems'])).imp ?_
            rintro r ⟨hwf, hsplit, hitems, hsize, hfull⟩
            simp only [length_append, length_singleton, length_nil] at hsize hfull
            simp only [length_append, length_singleton] at hlen
            refine ⟨hwf, hsplit, by simpa [hitems'] using hitems, fun hr => ?_, fun hr => ?_⟩
            · have := hsize hr
              simp only [rootSize_internal, length_append, length_singleton]
              omega
            · have := hfull hr
              omega
          | some s =>
            simp only [splitList] at hitems'
            have hws : Wf h s := hsplit' s rfl
            have hall : ∀ d ∈ (l ++ [c']) ++ [s], Wf h d := fun d hd =>
              (mem_append.mp hd).elim (hw' d) (fun hd => mem_singleton.mp hd ▸ hws)
            refine (pushChildren_spec [s] hall (by simp)
              (by simpa using hlen) one_le_nodeCapacity (by simp [hitems'])).imp ?_
            rintro r ⟨hwf, hsplit, hitems, hsize, hfull⟩
            refine ⟨hwf, hsplit, by simpa [hitems'] using hitems, ?_, ?_⟩
            · simpa using hsize
            · simpa using hfull

/-! ## `merge_into_right` and `append_large` -/

theorem mergeIntoRight_spec {small large : SumTree T S} (wfs : Wf n small) (wfl : Wf n large) :
    Returns (PushedLeft n large small.toList) (mergeIntoRight small large) := by
  have hheight : small.height = large.height := by rw [wfs.height_eq, wfl.height_eq]
  unfold mergeIntoRight
  rw [if_neg (by simpa using hheight)]
  cases wfs with
  | @leaf its hne hlen =>
    cases wfl with
    | @leaf its' hne' hlen' =>
      have hadd : (its ++ its').length = its.length + its'.length := length_append
      simp only [pure_eq_ok]
      by_cases hle : its.length + its'.length ≤ nodeCapacity
      · rw [if_pos hle, ArrayVec.extend_of_le hle, ArrayVec.extend_of_le (by simpa using hle)]
        simp only [ok_bind, returns_ok, ← map_append]
        refine ⟨?_, by simp, by simp⟩
        rw [← itemsSum_append its hne']
        exact .leaf (by simp [hne]) (by omega)
      · obtain ⟨hl, hr, hlo, hhi⟩ := split_fits (Nat.lt_of_not_le hle) (by omega)
        obtain ⟨hleft, hright⟩ := Wf.splitItems (its ++ its') hlo (by omega) hl (by omega)
        obtain ⟨hcl, hcr, hsl, hsr⟩ := collect_halves (its ++ its') Item.summary hl (by omega)
        simp only [if_neg hle, ← map_append, ← map_take, ← map_drop]
        rw [hcl, hcr, hsl, hsr]
        simp only [ok_bind, returns_ok]
        refine ⟨hright, ?_, ?_⟩
        · intro t ht
          rw [Option.mem_some_iff] at ht
          exact ht ▸ hleft
        · simp only [toList_leaf, splitList, take_append_drop]
  | @internal h cts hne hlen hw =>
    cases wfl with
    | @internal _ cts' hne' hlen' hw' =>
      have hadd : (cts ++ cts').length = cts.length + cts'.length := length_append
      have hall : ∀ c ∈ cts ++ cts', Wf h c := fun c hc =>
        (mem_append.mp hc).elim (hw c) (hw' c)
      simp only [pure_eq_ok, Nat.add_comm cts'.length cts.length]
      by_cases hle : cts.length + cts'.length ≤ nodeCapacity
      · rw [if_pos hle, ArrayVec.extend_of_le hle, ArrayVec.extend_of_le (by simpa using hle)]
        simp only [ok_bind, returns_ok, ← map_append]
        refine ⟨?_, by simp, by simp⟩
        rw [← itemsSum_append _ (toListForest_ne_nil hw' hne'), ← toListForest_append]
        exact .internal (by simp [hne]) (by omega) hall
      · obtain ⟨hl, hr, hlo, hhi⟩ := split_fits (Nat.lt_of_not_le hle) (by omega)
        obtain ⟨hleft, hright⟩ := Wf.splitChildren hall hlo (by omega) hl (by omega)
        obtain ⟨hcl, hcr, hsl, hsr⟩ := collect_halves (cts ++ cts') summary hl (by omega)
        simp only [if_neg hle, ← map_append, ← map_take, ← map_drop]
        rw [hcl, hcr, hsl, hsr]
        simp only [ok_bind, returns_ok]
        refine ⟨hright, ?_, ?_⟩
        · intro t ht
          rw [Option.mem_some_iff] at ht
          exact ht ▸ hleft
        · simp only [toList_internal, splitList]
          rw [toListForest_take_append_drop, toListForest_append]

theorem insertFirst_spec {s : S} (cts : List (SumTree T S))
    (res : Option (SumTree T S)) (hw : ∀ c ∈ cts, Wf h c) (hne : cts ≠ [])
    (hlen : cts.length ≤ nodeCapacity) (hres : ∀ t ∈ res, Wf h t)
    (hs : s = itemsSum (splitList res ++ toListForest cts)) :
    Returns (fun r => Wf (h + 1) r.1 ∧ (∀ t ∈ r.2, Wf (h + 1) t) ∧
        splitList r.2 ++ r.1.toList = splitList res ++ toListForest cts)
      (insertFirst (h + 1) s (cts.map summary) cts res) := by
  cases res with
  | none =>
    simp only [insertFirst, pure_eq_ok, returns_ok, splitList, nil_append]
      at hs ⊢
    refine ⟨?_, by simp, by simp⟩
    rw [hs]
    exact .internal hne hlen hw
  | some t =>
    have hwt : Wf h t := hres t rfl
    have hall : ∀ c ∈ t :: cts, Wf h c := fun c hc =>
      (mem_cons.mp hc).elim (fun hc => hc ▸ hwt) (hw c)
    unfold insertFirst
    by_cases hlt : cts.length < nodeCapacity
    · simp only [if_pos hlt]
      rw [ArrayVec.insertFront_of_lt (by simpa using hlt), ArrayVec.insertFront_of_lt hlt]
      simp only [ok_bind, pure_eq_ok, returns_ok]
      refine ⟨?_, by simp, by simp⟩
      rw [hs]
      exact Wf.internal (cons_ne_nil t cts) hlt hall
    · -- the node is full: the tree and the first `treeBase` children split off
      have hfull : cts.length = nodeCapacity := by omega
      simp only [nodeCapacity, treeBase] at hfull
      have hleft : ∀ c ∈ t :: cts.take treeBase, Wf h c := fun c hc =>
        (mem_cons.mp hc).elim (fun hc => hc ▸ hwt) (fun hc => hw c (mem_of_mem_take hc))
      have hright : ∀ c ∈ cts.drop treeBase, Wf h c := fun c hc => hw c (mem_of_mem_drop hc)
      have htake : [t].length + (cts.take treeBase).length ≤ nodeCapacity := by
        simp [treeBase, nodeCapacity]; omega
      have htake' : [t.summary].length + (List.take treeBase (cts.map summary)).length ≤
          nodeCapacity := by simp [treeBase, nodeCapacity]; omega
      simp only [if_neg hlt]
      rw [ArrayVec.extend_of_le htake', ArrayVec.extend_of_le htake]
      simp only [ok_bind, pure_eq_ok, returns_ok, ← map_take,
        ← map_drop, cons_append, nil_append, ← map_cons]
      refine ⟨?_, ?_, ?_⟩
      · refine Wf.ofChildren hright (ne_nil_of_length_pos ?_) ?_
        · simp [treeBase]; omega
        · simp [treeBase, nodeCapacity]; omega
      · intro t' ht'
        rw [Option.mem_some_iff] at ht'
        exact ht' ▸ Wf.ofChildren hleft (by simp) (by rw [length_cons, Nat.add_comm]; exact htake)
      · simp only [toList_internal, splitList, toListForest_cons, append_assoc]
        rw [toListForest_take_append_drop]

/-- **`append_large`** adds a tree that is not higher than `large` on the left;
    it returns, at the height of `large`. -/
theorem appendLarge_spec : ∀ {m : Nat} {small large : SumTree T S},
    Wf m small → Wf n large → m ≤ n →
      Returns (PushedLeft n large small.toList) (appendLarge small large) := by
  induction n with
  | zero =>
    intro m small large wfs wfl hle
    obtain rfl : m = 0 := by omega
    cases wfl with
    | leaf hne hlen =>
      rw [appendLarge, if_pos wfs.height_eq]
      cases hu : small.isUnderflowing
      · simpa using ⟨.leaf hne hlen, by simpa using wfs, by simp⟩
      · exact mergeIntoRight_spec wfs (.leaf hne hlen)
  | succ h ih =>
    intro m small large wfs wfl hle
    cases wfl with
    | @internal _ cts hne hlen hw =>
      unfold appendLarge
      simp only [wfs.height_eq]
      by_cases heq : m = h + 1
      · subst heq
        rw [if_pos rfl]
        cases hu : small.isUnderflowing
        · simpa using ⟨.internal hne hlen hw, by simpa using wfs, by simp⟩
        · exact mergeIntoRight_spec wfs (.internal hne hlen hw)
      · rw [if_neg heq, if_neg (by omega)]
        obtain ⟨first, rest, rfl⟩ := exists_cons_of_ne_nil hne
        obtain ⟨⟨first', res⟩, hrec, hwf', hsplit', hitems'⟩ :=
          ih wfs (hw first (by simp)) (by omega)
        have hw' : ∀ c ∈ first' :: rest, Wf h c := fun c hc =>
          (mem_cons.mp hc).elim (fun hc => hc ▸ hwf') (fun hc => hw c (by simp [hc]))
        simp only [ok_bind, hrec, map_cons, ArrayVec.setFirst_cons]
        refine (insertFirst_spec (first' :: rest) res hw' (by simp)
          (by simpa using hlen) hsplit' ?_).imp ?_
        · rw [wfs.summary_eq, ← itemsSum_append _ (toListForest_ne_nil hw hne)]
          simp only [toListForest_cons, ← append_assoc, hitems']
        · rintro r ⟨hwf, hsplit, hitems⟩
          refine ⟨hwf, hsplit, ?_⟩
          rw [hitems]
          simp only [toList_internal, toListForest_cons, ← append_assoc, hitems']

/-! ## `append` -/

theorem fromChildTrees_spec {left right : SumTree T S} (wfl : Wf h left) (wfr : Wf h right) :
    Ensures (fun r => h < 255 ∧ Wf (h + 1) r ∧ r.toList = left.toList ++ right.toList ∧
        r.rootSize = 2)
      (fun e => e = .addOverflow ∧ 255 ≤ h) (fromChildTrees left right) := by
  unfold fromChildTrees succHeight
  rw [wfl.height_eq]
  by_cases hlt : h < 255
  · have hall : ∀ c ∈ [left, right], Wf h c := by simp [wfl, wfr]
    have h1 : ArrayVec.push [left.summary] right.summary =
        .ok [left.summary, right.summary] := rfl
    have h2 : ArrayVec.push [left] right = .ok [left, right] := rfl
    simp only [if_pos hlt, ok_bind, ArrayVec.push_nil, h1, h2, pure_eq_ok,
      Exec.ensures_ok]
    exact ⟨hlt, Wf.ofChildren hall (by simp) (show 2 ≤ nodeCapacity by decide), by simp, rfl⟩
  · rw [if_neg hlt]
    exact ⟨rfl, Nat.le_of_not_lt hlt⟩

/-- How far a tree has grown: a level counts as much as the eleven children a
    new root has to gain before it is split in turn. -/
def bulk (t : SumTree T S) : Nat :=
  (nodeCapacity - 1) * t.height + t.rootSize

/-- `r` is `a` with `b` behind it. -/
structure Appended (a b r : SumTree T S) : Prop where
  wf     : WellFormed r
  items  : r.toList = a.toList ++ b.toList
  height : r.height ≤ max a.height b.height + 1
  bulk   : r.bulk ≤ max (a.bulk + 1) ((nodeCapacity - 1) * b.height + nodeCapacity + 1)

theorem Wf.bulk_le {t : SumTree T S} (wf : Wf h t) :
    t.bulk ≤ (nodeCapacity - 1) * h + nodeCapacity := by
  have := wf.rootSize_le
  simp only [bulk, wf.height_eq]
  omega

theorem WellFormed.bulk_le {t : SumTree T S} (wf : WellFormed t) :
    t.bulk ≤ (nodeCapacity - 1) * t.height + nodeCapacity := by
  rcases wf with rfl | ⟨h, _, wf⟩
  · simp [new, SumTree.bulk, SumTree.height, rootSize]
  · rw [wf.height_eq]
    exact wf.bulk_le

/-- **`append`** joins two well-formed trees.  It can only panic when a height
    outgrows `u8`, and then one of the trees is already 255 levels high. -/
theorem append_spec {a b : SumTree T S} (wfa : WellFormed a) (wfb : WellFormed b) :
    Ensures (Appended a b) (fun e => e = .addOverflow ∧ 255 ≤ max a.height b.height)
      (append a b) := by
  have hbb := wfb.bulk_le
  unfold append
  by_cases hea : a.isEmpty = true
  · rw [if_pos hea, wfa.eq_new hea]
    exact ⟨wfb, by simp [new], by omega, by omega⟩
  rw [if_neg hea]
  by_cases heb : b.isEmpty = true
  · rw [if_pos heb, wfb.eq_new heb]
    exact ⟨wfa, by simp [new], by omega, by omega⟩
  rw [if_neg heb]
  have wa := wfa.wf (by simpa using hea)
  have wb := wfb.wf (by simpa using heb)
  have hha := wfa.height_le
  have hhb := wfb.height_le
  by_cases hlt : a.height < b.height
  · rw [if_pos hlt]
    obtain ⟨⟨large, res⟩, hrun, hwf, hsplit, hitems⟩ := appendLarge_spec wa wb (by omega)
    simp only at hwf hsplit hitems
    simp only [hrun, ok_bind]
    cases res with
    | none =>
      have := hwf.bulk_le
      exact ⟨hwf.wellFormed hhb, by simpa using hitems, by rw [hwf.height_eq]; omega, by omega⟩
    | some tree =>
      refine (fromChildTrees_spec (hsplit tree rfl) hwf).imp ?_ ?_
      · rintro r ⟨h255, hr, hri, hrs⟩
        refine ⟨hr.wellFormed (by omega), ?_, ?_, ?_⟩
        · simpa [hri] using hitems
        · rw [hr.height_eq]; omega
        · simp only [SumTree.bulk, hr.height_eq, hrs, nodeCapacity, treeBase]; omega
      · rintro e ⟨rfl, he⟩
        exact ⟨rfl, by omega⟩
  · rw [if_neg hlt]
    obtain ⟨⟨self, res⟩, hrun, hwf, hsplit, hitems, hsize, hfull⟩ :=
      pushTreeRecursive_spec wa wb (by omega)
    simp only at hwf hsplit hitems hsize hfull
    simp only [hrun, ok_bind]
    cases res with
    | none =>
      have := hwf.bulk_le
      have hs := hsize rfl
      refine ⟨hwf.wellFormed hha, by simpa using hitems, by rw [hwf.height_eq]; omega, ?_⟩
      by_cases heq : b.height = a.height
      · rw [heq]; omega
      · rw [if_neg heq] at hs
        simp only [SumTree.bulk, hwf.height_eq] at hs ⊢
        omega
    | some tree =>
      have hf := hfull (by simp)
      refine (fromChildTrees_spec hwf (hsplit tree rfl)).imp ?_ ?_
      · rintro r ⟨h255, hr, hri, hrs⟩
        refine ⟨hr.wellFormed (by omega), ?_, ?_, ?_⟩
        · simpa [hri] using hitems
        · rw [hr.height_eq]; omega
        · -- the root was full: a split costs the eleven children a level stands for
          by_cases heq : b.height = a.height
          · simp only [SumTree.bulk, hr.height_eq, hrs, heq, nodeCapacity, treeBase]; omega
          · rw [if_neg heq] at hf
            simp only [SumTree.bulk, hr.height_eq, hrs, nodeCapacity, treeBase] at hf ⊢; omega
      · rintro e ⟨rfl, he⟩
        exact ⟨rfl, by omega⟩

end SumTree

end Gpui
