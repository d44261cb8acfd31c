import Gpui.SumTree.TreeMapRuns
import Gpui.SumTree.FindSpec
import Gpui.SumTree.Iter

/-! # TreeMap: reading a map

    The entries of a map in the order of their keys, from a key on, and next to a key.
    A cursor that seeks a key finds the cut of the entries there. -/

set_option linter.unusedSectionVars false

namespace Gpui

open List

open Exec (Returns Ensures Next loop Counts ok_bind)

/-! ## Definitions -/

/-- What an iterator returns until it is at its end. -/
def Iter.collect {T S : Type} (it : Iter T S) : Run (List T) :=
  loop .loopBound (fun ((it, items) : Iter T S × List T) => do
    match ← it.next with
    | (some item, it) => pure (.again (it, items ++ [item]))
    | (none, _)       => pure (.done items))
    it.tree.size (it, [])

/-- What a cursor returns as an iterator until it is at its end. -/
def Cursor.collect {T S D : Type} [Dimension D S] (c : Cursor T S D) : Run (List T) :=
  loop .loopBound (fun ((c, items) : Cursor T S D × List T) => do
    match ← c.iterNext with
    | (some item, c) => pure (.again (c, items ++ [item]))
    | (none, _)      => pure (.done items))
    c.tree.size (c, [])

namespace TreeMap

variable {K V : Type}

/-- A key and its value, as they are handed out. -/
def pair (entry : MapEntry K V) : K × V :=
  (entry.key, entry.value)

def iter (m : TreeMap K V) : Run (List (K × V)) := do
  let items ← (Iter.new m).collect
  pure (items.map pair)

def first (m : TreeMap K V) : Run (Option (K × V)) := do
  let item ← SumTree.first m
  pure (item.map pair)

def last (m : TreeMap K V) : Run (Option (K × V)) := do
  let item ← SumTree.last m
  pure (item.map pair)

variable [LinearOrder K]

/-- The entry with the greatest key that is not above `key`. -/
def closest (m : TreeMap K V) (key : K) : Run (Option (K × V)) := do
  let (cursor, _) ← (Cursor.new m).seek (keyRef key) .right
  let cursor ← cursor.prev
  let item ← cursor.item
  pure (item.map pair)

def iterFrom (m : TreeMap K V) («from» : K) : Run (List (K × V)) := do
  let (cursor, _) ← (Cursor.new m).seek (keyRef «from») .left
  let items ← cursor.collect
  pure (items.map pair)

end TreeMap

/-! ## Iterators -/

section Collecting

variable {T S D : Type} [Summary S] [Item T S] {root : SumTree T S}

theorem Iter.collect_spec (hroot : root.WellFormed) :
    Ensures (fun items => items = root.toList) (fun e => e = .stackFull ∧ 15 < root.height)
      (Iter.new root).collect := by
  refine Exec.loop_counts (fun n (st : Iter T S × List T) => ∃ after, n = after.length ∧
    root.toList = st.2 ++ after ∧ Iter.At root st.2 after st.1) ?_ _ _ root.toList.length
    ⟨root.toList, rfl, rfl, .fresh⟩ (SumTree.length_toList_lt root)
  rintro n ⟨it, items⟩ ⟨after, rfl, hitems, pos⟩
  refine (Iter.next_spec hroot pos).bind ?_
  rintro ⟨item, it'⟩ ⟨⟨hitem, hstack⟩, htree⟩
  subst hitem
  cases after with
  | nil =>
    rw [append_nil] at hitems
    exact hitems.symm
  | cons x after =>
    refine ⟨after.length, Nat.lt_succ_self _, after, rfl, ?_, ?_⟩
    · rw [hitems, append_assoc, singleton_append]
    · obtain ⟨tree, stack⟩ := it'
      obtain rfl : tree = root := htree
      exact hstack

variable [Dimension D S] [LawfulSummary S] [LawfulDimension D S] {c : Cursor T S D}

theorem Cursor.collect_eq (hroot : root.WellFormed) (hle : root.height ≤ 15) {i : Nat}
    (hi : i ≤ root.toList.length) (sim : Simulates root (.behind i) c) :
    c.collect = .ok (root.toList.drop i) := by
  have htree : c.tree = root := by
    cases sim with
    | behind pos => exact pos.tree
  have hcollect : Ensures (fun items => items = root.toList.drop i) (fun _ => False)
      c.collect := by
    unfold Cursor.collect
    rw [htree]
    refine Exec.loop_counts (fun n (st : Cursor T S D × List T) => ∃ j ≤ root.toList.length,
      n = root.toList.length - j ∧ Simulates root (.behind j) st.1 ∧
      st.2 ++ root.toList.drop j = root.toList.drop i) ?_ _ _ (root.toList.length - i)
      ⟨i, hi, rfl, sim, nil_append _⟩
      (lt_of_le_of_lt (Nat.sub_le _ _) (SumTree.length_toList_lt root))
    rintro n ⟨c, items⟩ ⟨j, hj, rfl, sim, hitems⟩
    dsimp only at sim hitems ⊢
    obtain ⟨c', hnext, sim'⟩ := sim.iterNext hroot hle hj
    rw [hnext, ok_bind]
    cases hat : root.toList[j]? with
    | none =>
      have hend := getElem?_eq_none_iff.mp hat
      rw [drop_eq_nil_of_le hend, append_nil] at hitems
      exact hitems
    | some x =>
      obtain ⟨hlt, rfl⟩ := List.getElem?_eq_some_iff.mp hat
      rw [Nat.min_eq_left hlt] at sim'
      refine ⟨root.toList.length - (j + 1), by omega, j + 1, hlt, rfl, sim', ?_⟩
      rw [← hitems, drop_eq_getElem_cons hlt, append_assoc, singleton_append]
  obtain ⟨items, hitems, rfl⟩ := hcollect.returns
  exact hitems

end Collecting

/-! ## The cut at a key -/

namespace TreeMap

variable {K V : Type} [LinearOrder K] {m : TreeMap K V} {key : K}

/-- What is in reach of a key: below it when the bias is left, up to it when it is right. -/
def within (bias : Bias) (key k : K) : Bool :=
  match bias with
  | .left  => k < key
  | .right => k ≤ key

theorem not_within_left (key k : K) : (!within .left key k) = decide (key ≤ k) := by
  unfold within
  rw [← decide_not]
  exact decide_eq_decide.mpr not_lt

theorem reached_keyRef (bias : Bias) (key k : K) :
    reached (keyRef key) bias (⟨some k⟩ : MapKeyRef K) = within bias key k := by
  have hcmp : keyRef key (⟨some k⟩ : MapKeyRef K) = compare key k := rfl
  unfold reached within
  rw [hcmp]
  rcases lt_trichotomy key k with h | rfl | h
  · rw [compare_lt_iff_lt.mpr h]
    cases bias with
    | left => simp [h.le]
    | right => simp [h]
  · rw [compare_eq_iff_eq.mpr rfl]
    cases bias with
    | left => simp
    | right => simp
  · rw [compare_gt_iff_gt.mpr h]
    cases bias with
    | left => simp [h]
    | right => simp [h.le]

theorem within_mono (bias : Bias) (key a b : K) (hab : a ≤ b) (hb : within bias key b = true) :
    within bias key a = true := by
  cases bias with
  | left => exact decide_eq_true (lt_of_le_of_lt hab (of_decide_eq_true hb))
  | right => exact decide_eq_true (hab.trans (of_decide_eq_true hb))

/-- Where a search for a key stops, the entries are cut at the key. -/
theorem cut_at_key {bias : Bias} {before after : List (MapEntry K V)}
    (inc : Batch.Increasing MapEntry.key (before ++ after))
    (hreached : before ≠ [] → reached (keyRef key) bias (measure (MapKeyRef K) before) = true)
    (hnext : ∀ x ∈ after.head?,
      reached (keyRef key) bias (measure (MapKeyRef K) (before ++ [x])) = false) :
    before = (before ++ after).filter (fun x => within bias key x.key) ∧
      after = (before ++ after).filter (fun x => !within bias key x.key) := by
  have hkey : ∀ (init : List (MapEntry K V)) (y : MapEntry K V),
      measure (MapKeyRef K) (init ++ [y]) = ⟨some y.key⟩ := fun init y =>
    positionedBy_mapKeyRef _ init y [] rfl
  refine inc.cut (within_mono bias key) ?_ ?_
  · intro y hy
    obtain ⟨init, rfl⟩ := getLast?_eq_some_iff.mp hy
    have hlast := hreached (by simp)
    rwa [hkey, reached_keyRef] at hlast
  · intro z hz
    have hfirst := hnext z hz
    rwa [hkey, reached_keyRef] at hfirst

/-- A cursor that seeks a key finds the cut. -/
theorem seek_key (wf : m.WellFormed) (sorted : SortedKeys m.toList) (low : m.height ≤ 15)
    (bias : Bias) (key : K) :
    ∃ c found i, (Cursor.new m).seek (keyRef key) bias = .ok (c, found) ∧ i ≤ m.toList.length ∧
      Simulates m (.behind i) c ∧
      m.toList.take i = m.toList.filter (fun x => within bias key x.key) ∧
      m.toList.drop i = m.toList.filter (fun x => !within bias key x.key) := by
  obtain ⟨c, found, i, hseek, ⟨hle, hpassed, hnext⟩, sim⟩ :=
    (.fresh : Simulates m .fresh (.new m : Cursor _ _ (MapKeyRef K))).seek wf low bias
      (show keyRef key (Dimension.zero (MapKey K)) ≠ .lt by
        exact adaptor_zero_ne_lt (compare key))
  have inc : Batch.Increasing MapEntry.key (m.toList.take i ++ m.toList.drop i) := by
    rw [take_append_drop]
    exact increasing_key.mp sorted
  have hreached : m.toList.take i ≠ [] →
      reached (keyRef key) bias (measure (MapKeyRef K) (m.toList.take i)) = true := by
    intro hne
    exact hpassed (Nat.pos_of_ne_zero fun hzero => hne (by rw [hzero, take_zero]))
  have hstop : ∀ x ∈ (m.toList.drop i).head?,
      reached (keyRef key) bias (measure (MapKeyRef K) (m.toList.take i ++ [x])) = false := by
    intro x hx
    rw [head?_drop] at hx
    obtain ⟨hlt, rfl⟩ := List.getElem?_eq_some_iff.mp hx
    rw [← take_succ_eq_append_getElem hlt]
    exact hnext hlt
  have hcut := cut_at_key inc hreached hstop
  rw [take_append_drop] at hcut
  exact ⟨c, found, i, hseek, hle, sim, hcut⟩

/-! ## What is read -/

section

variable (wf : m.WellFormed)
include wf

theorem get_eq (sorted : SortedKeys m.toList) (key : K) :
    get m key = (Batch.equal MapEntry.key key m.toList).head?.map MapEntry.value := by
  obtain ⟨before, after, finds⟩ := wf.finds (D := MapKeyRef K) rfl (keyRef key) .left
  have inc : Batch.Increasing MapEntry.key (before ++ after) :=
    finds.items ▸ increasing_key.mp sorted
  obtain ⟨-, hafter⟩ := cut_at_key inc finds.reached finds.next
  have hfrom : m.toList.filter (fun x => key ≤ x.key) = after := by
    rw [finds.items]
    exact (filter_congr fun x _ => (not_within_left key x.key).symm).trans hafter.symm
  have hequal : Batch.equal MapEntry.key key (m.toList.filter fun x => key ≤ x.key) = _ :=
    Batch.equal_filter_le key m.toList
  rw [hfrom] at hequal
  unfold get
  rw [finds.find, ← hequal]
  cases hcases : after with
  | nil => rfl
  | cons x rest =>
    have incAfter : Batch.Increasing MapEntry.key (x :: rest) :=
      hcases ▸ (pairwise_append.mp inc).2.1
    have hle : key ≤ x.key := by
      have hx : x ∈ m.toList.filter (fun x => key ≤ x.key) := by
        rw [hfrom, hcases]
        exact mem_cons_self
      simpa using (mem_filter.mp hx).2
    dsimp only [head?_cons]
    by_cases heq : x.key = key
    · rw [if_pos heq, ← heq, (incAfter.at_head).1]
      rfl
    · rw [if_neg heq, (incAfter.ahead_of_head (lt_of_le_of_ne hle (Ne.symm heq))).1]
      rfl

theorem closest_eq (sorted : SortedKeys m.toList) (low : m.height ≤ 15) (key : K) :
    closest m key = .ok ((m.toList.filter fun x => x.key ≤ key).getLast?.map pair) := by
  obtain ⟨c, found, i, hseek, hle, sim, htake, -⟩ := seek_key wf sorted low .right key
  obtain ⟨c', hprev, sim'⟩ := sim.prev wf low
  have hitem : c'.item = .ok (m.toList.take i).getLast? := by
    cases i with
    | zero => exact (sim'.shows wf (by simp [Place.prev])).item
    | succ i =>
      refine (sim'.shows wf (by simp [Place.prev])).item.trans (congrArg Except.ok ?_)
      show m.toList[i]? = _
      rw [take_succ_eq_append_getElem hle, getLast?_concat, getElem?_eq_getElem hle]
  simp only [closest, hseek, hprev, hitem, ok_bind]
  rw [htake]
  rfl

theorem iterFrom_eq (sorted : SortedKeys m.toList) (low : m.height ≤ 15) (key : K) :
    iterFrom m key = .ok ((m.toList.filter fun x => key ≤ x.key).map pair) := by
  obtain ⟨c, found, i, hseek, hle, sim, -, hdrop⟩ := seek_key wf sorted low .left key
  have hfrom : m.toList.drop i = m.toList.filter (fun x => key ≤ x.key) :=
    hdrop.trans (filter_congr fun x _ => not_within_left key x.key)
  simp only [iterFrom, hseek, Cursor.collect_eq wf low hle sim, ok_bind, hfrom]
  rfl

theorem iter_eq (low : m.height ≤ 15) : iter m = .ok (m.toList.map pair) := by
  obtain ⟨items, hcollect, rfl⟩ := ((Iter.collect_spec wf).imp (fun _ h => h)
    (fun e he => by omega)).returns
  simp only [iter, hcollect, ok_bind]
  rfl

theorem first_eq : first m = .ok (m.toList.head?.map pair) := by
  simp only [first, wf.first_eq, ok_bind]
  rfl

theorem last_eq : last m = .ok (m.toList.getLast?.map pair) := by
  simp only [last, wf.last_eq, ok_bind]
  rfl

end

end TreeMap

end Gpui
