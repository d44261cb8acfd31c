import Gpui.SumTree.EditSpec
import Gpui.SumTree.ListSpec

/-! # TreeMap: what the operations do to the entries

    Every operation cuts the map at a target and glues the pieces.  On a map in the
    order of its keys a cut is a filter, and what is glued is in order again unless
    the pieces overlap. -/

set_option linter.unusedSectionVars false

namespace Gpui

open List

open Exec (Returns Ensures ok_bind)

/-! ## One item at a time -/

namespace SumTree

section Keyed

variable {T S K : Type} [Summary S] [KeyedItem T S K] [Dimension K S] [LinearOrder K]
  [LawfulSummary S] [LawfulKeyedItem T S K] {P : List T → K → Prop} {t : SumTree T S}

/-- The tree cut at a key. -/
theorem slice_key (tk : TracksKeys P) (wf : t.WellFormed) (sorted : SortedKeys t.toList) {k : K}
    (hk : Dimension.zero S ≤ k) :
    Ensures (fun r => r.1.At P t r.2.toList (t.toList.filter fun x => k ≤ KeyedItem.key x) ∧
        r.2.WellFormed ∧ r.2.toList = Batch.below KeyedItem.key k t.toList ∧
        (Determines P → t.height ≤ 15 → r.2.height ≤ 56))
      (OutOfRoom P t.height 1) ((Cursor.new t).slice (keyTarget k) .left) := by
  have hback : keyTarget k (Cursor.new t : Cursor T S K).position ≠ .lt := by
    show compare k (Dimension.zero S) ≠ .lt
    rw [Ne, compare_lt_iff_lt]
    exact hk.not_gt
  refine (slice_room tk.tracks wf (.inl ⟨rfl, rfl, rfl⟩) .left hback).imp ?_ (fun _ h => h)
  rintro r ⟨after, stopped, hwf, hlow⟩
  obtain ⟨hmid, hahead⟩ := stopped.below tk sorted
  obtain ⟨hbelow, hfrom⟩ := split_at_key hmid hahead
  have hsplit : t.toList = r.2.toList ++ after := stopped.split
  have hpos : r.1.At P t ([] ++ r.2.toList) after := stopped.pos
  rw [hsplit, hbelow, hfrom]
  exact ⟨hpos, hwf, rfl, hlow⟩

/-- **`insert_or_replace`** puts the item in its place. -/
theorem insertOrReplace_spec (tk : TracksKeys P) (wf : t.WellFormed)
    (sorted : SortedKeys t.toList) (item : T) :
    Ensures (fun r => r.1.WellFormed ∧
        r.1.toList = Batch.insertOne KeyedItem.key t.toList item ∧
        r.2.toList = Batch.equal KeyedItem.key (KeyedItem.key item) t.toList)
      (OutOfRoom P t.height 1) (insertOrReplace t item) := by
  refine (slice_key tk wf sorted (LawfulKeyedItem.zero_le item)).bind ?_
  rintro ⟨c, newTree⟩ ⟨pos, hwf, hbelow, hlow⟩
  dsimp only at pos hwf hbelow hlow ⊢
  rw [pos.item_eq, ok_bind]
  refine ((takeItem_spec tk wf sorted pos fun x hx => by simpa using (mem_filter.mp hx).2).imp
    (fun _ h => h) (fun e he => .inl he)).bind ?_
  rintro ⟨c', replaced⟩ ⟨pos', hreplaced⟩
  rw [Batch.equal_filter_le] at hreplaced pos'
  rw [Batch.above_filter_le] at pos'
  have hgrown : Determines P → t.height ≤ 15 → 0 ≤ nodeCapacity ^ 57 → Grown (2 * 0 + 1) newTree :=
    fun det hle _ => .of_height_le _ hwf (by have := hlow det hle; omega)
  refine ((append_room hwf (wellFormed_singleton item) hgrown fun _ _ => Nat.zero_le _).imp
    (fun _ h => h) (fun e he => he.mono (Nat.zero_le 1))).bind ?_
  rintro pushed ⟨hwf₁, hitems₁, hgrown₁⟩
  refine (suffix_room tk.tracks wf (.inr pos')).bind ?_
  rintro ⟨c'', suffix⟩ ⟨hsuffix, hsuffixItems, hlow'⟩
  have hgrown₂ : Determines P → t.height ≤ 15 → 1 ≤ nodeCapacity ^ 57 →
      Grown (2 * 1 + 1) pushed := fun det hle _ =>
    (hgrown₁ det hle (Nat.zero_le _)).mono (by decide)
  refine (append_room hwf₁ hsuffix hgrown₂ hlow').bind ?_
  rintro r ⟨hwf₂, hitems₂, -⟩
  refine ⟨hwf₂, ?_, hreplaced⟩
  rw [hitems₂, hitems₁, hbelow, hsuffixItems, Batch.insertOne]
  simp

end Keyed

end SumTree

namespace TreeMap

open SumTree (OutOfRoom slice_room suffix_room append_room Grown)

variable {K V : Type} [LinearOrder K] {m : TreeMap K V}

/-! ## Cuts -/

/-- What lies before a target, and what does not. -/
abbrev before (target : MapSeekTarget K) (xs : List (MapEntry K V)) : List (MapEntry K V) :=
  xs.filter fun x => target x.key = .gt

abbrev behind (target : MapSeekTarget K) (xs : List (MapEntry K V)) : List (MapEntry K V) :=
  xs.filter fun x => target x.key ≠ .gt

/-- The positions along a map. -/
abbrev Placed : List (MapEntry K V) → MapKeyRef K → Prop := Measured

theorem increasing_key {xs : List (MapEntry K V)} :
    SortedKeys xs ↔ Batch.Increasing MapEntry.key xs := by
  rw [sortedKeys_iff, pairwise_map]
  rfl

variable {c : Cursor (MapEntry K V) (MapKey K) (MapKeyRef K)}

/-- A cursor that stops under a monotone target has cut the map there. -/
theorem cut_of_stopped
    {target : MapSeekTarget K} (mono : target.Monotone) (sorted : SortedKeys m.toList)
    {mid after : List (MapEntry K V)}
    (stopped : c.Stopped Placed (mapSeekTargetAdaptor target) .left m [] m.toList mid after) :
    mid = before target m.toList ∧ after = behind target m.toList := by
  have hsplit : m.toList = mid ++ after := stopped.split
  have hposition : c.position = measure (MapKeyRef K) mid := stopped.pos.position
  have hkey : ∀ (init : List (MapEntry K V)) (y : MapEntry K V),
      measure (MapKeyRef K) (init ++ [y]) = ⟨some y.key⟩ := fun init y =>
    positionedBy_mapKeyRef _ init y [] rfl
  have inc : Batch.Increasing MapEntry.key (mid ++ after) := hsplit ▸ increasing_key.mp sorted
  -- what the cursor has passed lies before the target
  have hlast : ∀ y ∈ mid.getLast?, decide (target y.key = .gt) = true := by
    intro y hy
    obtain ⟨init, hinit⟩ := getLast?_eq_some_iff.mp hy
    have hreached := stopped.reached (by simp [hinit])
    rw [hposition, hinit, hkey] at hreached
    simpa [reached, mapSeekTargetAdaptor] using hreached
  have hfirst : ∀ z ∈ after.head?, decide (target z.key = .gt) = false := by
    intro z hz
    have hnext := stopped.next z hz
    rw [hposition, ← measure_concat, hkey] at hnext
    simpa [reached, mapSeekTargetAdaptor] using hnext
  obtain ⟨hmid, hafter⟩ := inc.cut (p := fun key => decide (target key = .gt))
    (fun a b hab => by simpa using (mono a b hab).1) hlast hfirst
  rw [before, behind, hsplit]
  refine ⟨hmid, hafter.trans (filter_congr fun x _ => ?_)⟩
  simp

theorem adaptor_zero_ne_lt (target : MapSeekTarget K) :
    mapSeekTargetAdaptor target (Dimension.zero (MapKey K)) ≠ .lt := by
  intro h
  cases h

/-- The map sliced at a target. -/
theorem slice_target {target : MapSeekTarget K} (mono : target.Monotone) (wf : m.WellFormed)
    (sorted : SortedKeys m.toList) :
    Ensures (fun r => r.1.At Placed m (before target m.toList) (behind target m.toList) ∧
        r.2.WellFormed ∧ r.2.toList = before target m.toList ∧
        (m.height ≤ 15 → r.2.height ≤ 56))
      (OutOfRoom (Placed : List (MapEntry K V) → MapKeyRef K → Prop) m.height 1)
      ((Cursor.new m).slice (mapSeekTargetAdaptor target) .left) := by
  refine (slice_room Tracks.measured wf (.inl ⟨rfl, rfl, rfl⟩) .left
    (adaptor_zero_ne_lt target)).imp ?_ (fun _ h => h)
  rintro r ⟨after, stopped, hwf, hlow⟩
  obtain ⟨hmid, hafter⟩ := cut_of_stopped mono sorted stopped
  have hpos : r.1.At Placed m ([] ++ r.2.toList) after := stopped.pos
  rw [nil_append, hafter, hmid] at hpos
  exact ⟨hpos, hwf, hmid, hlow determines_measured⟩

/-! ## Removing -/

/-- **`remove_range`** glues what lies before `start` to what does not lie before `end`. -/
theorem removeRange_spec {start stop : MapSeekTarget K} (hstart : start.Monotone)
    (hstop : stop.Monotone) (wf : m.WellFormed) (sorted : SortedKeys m.toList) :
    Ensures (fun m' => m'.WellFormed ∧ m'.toList = before start m.toList ++ behind stop m.toList)
      (OutOfRoom (Placed : List (MapEntry K V) → MapKeyRef K → Prop) m.height 1)
      (removeRange m start stop) := by
  refine (slice_target hstart wf sorted).bind ?_
  rintro ⟨c, newTree⟩ ⟨pos, hwf, hitems, hlow⟩
  dsimp only at pos hwf hitems hlow ⊢
  refine ((Cursor.seek_spec Tracks.measured wf pos.tree).imp (fun _ h => h)
    (fun e he => .of_seek he (adaptor_zero_ne_lt stop))).bind ?_
  rintro ⟨c', found⟩ ⟨mid, after, stopped, -⟩
  obtain ⟨-, rfl⟩ := cut_of_stopped hstop sorted stopped
  refine (suffix_room Tracks.measured wf (.inr stopped.pos)).bind ?_
  rintro ⟨c'', suffix⟩ ⟨hsuffix, hsuffixItems, hlow'⟩
  have hgrown : Determines (Placed : List (MapEntry K V) → MapKeyRef K → Prop) →
      m.height ≤ 15 → 1 ≤ nodeCapacity ^ 57 → Grown (2 * 1 + 1) newTree := fun _ hle _ =>
    .of_height_le _ hwf (by have := hlow hle; omega)
  refine (append_room hwf hsuffix hgrown hlow').imp ?_ (fun _ h => h)
  rintro m' ⟨hwf', hitems', -⟩
  exact ⟨hwf', by rw [hitems', hitems, hsuffixItems]⟩

/-- The cursor of `remove` and `update` has stopped at the key when its item is there. -/
theorem end_at_key {key : K}
    (pos : c.At Placed m (before (compare key) m.toList) (behind (compare key) m.toList)) :
    ∃ e, c.«end» = .ok e ∧ (keyRef key e = .eq ↔
      ∃ x, (behind (compare key) m.toList).head? = some x ∧ x.key = key) := by
  refine ⟨_, pos.end_eq, ?_⟩
  rw [keyRef_eq]
  generalize hahead : behind (compare key) m.toList = ahead
  cases ahead with
  | cons x ahead =>
    show compare key x.key = .eq ↔ _
    rw [compare_eq_iff_eq]
    simp [eq_comm]
  | nil =>
    -- past the end the position is that of an entry below the key, or of none
    have hposition : c.position = measure (MapKeyRef K) (before (compare key) m.toList) :=
      pos.position
    refine iff_of_false ?_ (by simp)
    show mapSeekTargetAdaptor (compare key) c.position ≠ .eq
    rw [hposition]
    rcases eq_nil_or_concat' (before (compare key) m.toList) with hnil | ⟨init, y, hy⟩
    · rw [hnil]
      exact fun h => by cases h
    · have hmem : y ∈ before (compare key) m.toList := by simp [hy]
      have hgt : compare key y.key = .gt := by simpa using (mem_filter.mp hmem).2
      rw [hy, positionedBy_mapKeyRef _ init y [] rfl]
      show compare key y.key ≠ .eq
      rw [hgt]
      exact fun h => by cases h

theorem before_compare (key : K) (xs : List (MapEntry K V)) :
    before (compare key) xs = Batch.below MapEntry.key key xs :=
  filter_congr fun x _ => by simp [compare_gt_iff_gt]

theorem behind_compare (key : K) (xs : List (MapEntry K V)) :
    behind (compare key) xs = xs.filter fun x => key ≤ x.key :=
  filter_congr fun x _ => by simp [compare_gt_iff_gt]

/-- What is at a key in what does not lie before it. -/
theorem behind_cases {key : K} (sorted : SortedKeys m.toList) :
    (∃ x, behind (compare key) m.toList = x :: Batch.above MapEntry.key key m.toList ∧
        x.key = key ∧ Batch.equal MapEntry.key key m.toList = [x]) ∨
      (behind (compare key) m.toList = Batch.above MapEntry.key key m.toList ∧
        Batch.equal MapEntry.key key m.toList = [] ∧
        ¬ ∃ x, (behind (compare key) m.toList).head? = some x ∧ x.key = key) := by
  have hequal : Batch.equal MapEntry.key key (m.toList.filter fun x => key ≤ x.key) = _ :=
    Batch.equal_filter_le key m.toList
  have habove : Batch.above MapEntry.key key (m.toList.filter fun x => key ≤ x.key) = _ :=
    Batch.above_filter_le key m.toList
  have inc : Batch.Increasing MapEntry.key (m.toList.filter fun x => key ≤ x.key) :=
    (increasing_key.mp sorted).filter _
  have hfrom : ∀ x ∈ m.toList.filter (fun x => key ≤ x.key), key ≤ x.key := fun x hx => by
    simpa using (mem_filter.mp hx).2
  rw [behind_compare, ← hequal, ← habove]
  generalize (m.toList.filter fun x => key ≤ x.key) = ahead at inc hfrom
  cases ahead with
  | nil => exact .inr (by simp)
  | cons x ahead =>
    by_cases heq : x.key = key
    · obtain ⟨hx, hrest⟩ := heq ▸ inc.at_head
      exact .inl ⟨x, by rw [hrest], heq, hx⟩
    · have hlt : key < x.key := lt_of_le_of_ne (hfrom x (by simp)) (Ne.symm heq)
      obtain ⟨hx, hrest⟩ := inc.ahead_of_head hlt
      exact .inr ⟨hrest.symm, hx, by simpa using heq⟩

/-- A low tree has room for one more piece. -/
theorem grown_of_low {t : TreeMap K V} (wf : t.WellFormed) (hlow : m.height ≤ 15 → t.height ≤ 57) :
    Determines (Placed : List (MapEntry K V) → MapKeyRef K → Prop) → m.height ≤ 15 →
      1 ≤ nodeCapacity ^ 57 → Grown (2 * 1 + 1) t :=
  fun _ hle _ => .of_height_le _ wf (hlow hle)

/-- The end of `remove` and `update`: the rest of the map goes in behind. -/
theorem append_rest {newTree : TreeMap K V}
    {passed after : List (MapEntry K V)} {R : Type} (result : Option R) (wf : m.WellFormed)
    (pos : c.At Placed m passed after) (hwf : newTree.WellFormed)
    (hlow : m.height ≤ 15 → newTree.height ≤ 57) :
    Ensures (fun r => r.1.WellFormed ∧ r.1.toList = newTree.toList ++ after ∧ r.2 = result)
      (OutOfRoom (Placed : List (MapEntry K V) → MapKeyRef K → Prop) m.height 1)
      (do
        let (_, suffix) ← c.suffix
        let newTree ← newTree.append suffix
        pure (newTree, result)) := by
  refine (suffix_room Tracks.measured wf (.inr pos)).bind ?_
  rintro ⟨c', suffix⟩ ⟨hsuffix, rfl, hlow'⟩
  refine (append_room hwf hsuffix (grown_of_low hwf hlow) hlow').bind ?_
  rintro r ⟨hwf', hitems, -⟩
  exact ⟨hwf', hitems, rfl⟩

/-- **`remove`** takes out the entry of the key. -/
theorem remove_spec (wf : m.WellFormed) (sorted : SortedKeys m.toList) (key : K) :
    Ensures (fun r => r.1.WellFormed ∧
        r.1.toList = Batch.below MapEntry.key key m.toList ++ Batch.above MapEntry.key key m.toList ∧
        r.2.toList = (Batch.equal MapEntry.key key m.toList).map MapEntry.value)
      (OutOfRoom (Placed : List (MapEntry K V) → MapKeyRef K → Prop) m.height 1)
      (remove m key) := by
  unfold remove
  rw [keyRef_eq]
  refine (slice_target (monotone_compare key) wf sorted).bind ?_
  rintro ⟨c, newTree⟩ ⟨pos, hwf, hitems, hlow⟩
  dsimp only at pos hwf hitems hlow ⊢
  rw [before_compare] at hitems
  obtain ⟨e, hend, heq⟩ := end_at_key pos
  rw [keyRef_eq] at heq
  rw [hend, ok_bind]
  have hlow' : m.height ≤ 15 → newTree.height ≤ 57 := fun hle => (hlow hle).trans (by decide)
  rcases behind_cases sorted with ⟨x, hahead, hx, hequal⟩ | ⟨hahead, hequal, hnone⟩
  · rw [hahead] at pos heq
    rw [if_pos (heq.mpr ⟨x, rfl, hx⟩), pos.item_eq, hequal]
    refine ((Cursor.next_spec Tracks.measured wf (.item pos)).imp (fun _ h => h)
      fun e he => .inl he).bind fun c' pos' => ?_
    refine (append_rest (some x.value) wf pos' hwf hlow').imp ?_ (fun _ h => h)
    rintro r ⟨hwf', hitems', hresult⟩
    exact ⟨hwf', by rw [hitems', hitems], by rw [hresult]; rfl⟩
  · rw [if_neg fun h => hnone (heq.mp h), hequal]
    rw [hahead] at pos
    refine (append_rest none wf pos hwf hlow').imp ?_ (fun _ h => h)
    rintro r ⟨hwf', hitems', hresult⟩
    exact ⟨hwf', by rw [hitems', hitems], by rw [hresult]; rfl⟩

/-- **`update`** hands the value of the key to `f`. -/
theorem update_spec {R : Type} (wf : m.WellFormed) (sorted : SortedKeys m.toList) (key : K)
    (f : V → V × R) :
    Ensures (fun r => r.1.WellFormed ∧
        r.1.toList = Batch.below MapEntry.key key m.toList ++
          (Batch.equal MapEntry.key key m.toList).map (fun x => ⟨x.key, (f x.value).1⟩) ++
          Batch.above MapEntry.key key m.toList ∧
        r.2.toList = (Batch.equal MapEntry.key key m.toList).map fun x => (f x.value).2)
      (OutOfRoom (Placed : List (MapEntry K V) → MapKeyRef K → Prop) m.height 1)
      (update m key f) := by
  unfold update
  rw [keyRef_eq]
  refine (slice_target (monotone_compare key) wf sorted).bind ?_
  rintro ⟨c, newTree⟩ ⟨pos, hwf, hitems, hlow⟩
  dsimp only at pos hwf hitems hlow ⊢
  rw [before_compare] at hitems
  obtain ⟨e, hend, heq⟩ := end_at_key pos
  rw [keyRef_eq] at heq
  rw [hend, ok_bind]
  rcases behind_cases sorted with ⟨x, hahead, hx, hequal⟩ | ⟨hahead, hequal, hnone⟩
  · rw [hahead] at pos heq
    rw [if_pos (heq.mpr ⟨x, rfl, hx⟩), pos.item_eq, hequal]
    refine ((SumTree.push_spec hwf _).imp (fun _ h => h) ?_).bind ?_
    · rintro e ⟨rfl, he⟩
      exact .inr ⟨rfl, fun _ hle => absurd (hlow hle) (by omega)⟩
    rintro pushed ⟨hpushed, hpushedItems, hheight⟩
    refine ((Cursor.next_spec Tracks.measured wf (.item pos)).imp (fun _ h => h)
      fun e he => .inl he).bind fun c' pos' => ?_
    refine (append_rest (some (f x.value).2) wf pos' hpushed
      fun hle => hheight.trans (Nat.succ_le_succ (hlow hle))).imp ?_ (fun _ h => h)
    rintro r ⟨hwf', hitems', hresult⟩
    exact ⟨hwf', by rw [hitems', hpushedItems, hitems]; rfl, by rw [hresult]; rfl⟩
  · rw [if_neg fun h => hnone (heq.mp h), hequal]
    rw [hahead] at pos
    refine (append_rest none wf pos hwf fun hle => (hlow hle).trans (by decide)).imp ?_
      (fun _ h => h)
    rintro r ⟨hwf', hitems', hresult⟩
    exact ⟨hwf', by rw [hitems', hitems]; simp, by rw [hresult]; rfl⟩

/-- What `retain` keeps of the entries. -/
def retained {σ : Type} (predicate : σ → K → V → Bool × σ) : σ → List (MapEntry K V) →
    List (MapEntry K V)
  | _, []      => []
  | s, x :: xs =>
    (if (predicate s x.key x.value).1 then [x] else []) ++
      retained predicate (predicate s x.key x.value).2 xs

theorem retained_sublist {σ : Type} (predicate : σ → K → V → Bool × σ) :
    ∀ (s : σ) (xs : List (MapEntry K V)), (retained predicate s xs).Sublist xs := by
  intro s xs
  induction xs generalizing s with
  | nil => exact List.Sublist.slnil
  | cons x xs ih =>
    rw [retained]
    split
    · exact (ih _).cons_cons x
    · exact (ih _).cons x

/-- The variables of `retain` with `n` entries ahead of the cursor. -/
def Retaining {σ : Type} (m : TreeMap K V) (predicate : σ → K → V → Bool × σ)
    (kept : List (MapEntry K V)) (n : Nat)
    (st : Cursor (MapEntry K V) (MapKey K) (MapKeyRef K) × TreeMap K V × σ) : Prop :=
  ∃ passed after, n = after.length ∧ st.1.At Placed m passed after ∧ st.2.1.WellFormed ∧
    st.2.1.toList ++ retained predicate st.2.2 after = kept

/-- **`retain`** walks through the map and pushes what is kept. -/
theorem retain_spec {σ : Type} (wf : m.WellFormed) (predicate : σ → K → V → Bool × σ) (s : σ) :
    Ensures (fun m' => m'.WellFormed ∧ m'.toList = retained predicate s m.toList)
      (OutOfRoom (Placed : List (MapEntry K V) → MapKeyRef K → Prop) m.height m.toList.length)
      (retain m predicate s) := by
  refine ((Cursor.next_spec Tracks.measured wf .new).imp (fun _ h => h)
    (fun e he => .inl he)).bind fun c pos => ?_
  refine Exec.loop_counts (fun n st => Retaining m predicate (retained predicate s m.toList) n st ∧
      Grown (m.toList.length - n) st.2.1) ?_ _ _
    m.toList.length ⟨⟨[], m.toList, rfl, pos, SumTree.wellFormed_new, rfl⟩,
      SumTree.grown_new.mono (Nat.zero_le _)⟩
    (SumTree.length_toList_lt m)
  rintro n ⟨c, newMap, s'⟩ ⟨⟨passed, after, rfl, pos, hwf, hkept⟩, grown⟩
  dsimp only at pos hwf hkept grown ⊢
  rw [pos.item_eq, ok_bind]
  cases after with
  | nil => exact ⟨hwf, by rw [← hkept]; exact (append_nil _).symm⟩
  | cons x after =>
    rw [retained, ← append_assoc] at hkept
    have hlength := congrArg List.length pos.items
    rw [length_append, length_cons] at hlength
    have hnext := (Cursor.next_spec Tracks.measured wf (.item pos)).imp (fun _ h => h)
      (fun e he => (.inl he : OutOfRoom (Placed : List (MapEntry K V) → MapKeyRef K → Prop)
        m.height m.toList.length e))
    cases hkeep : (predicate s' x.key x.value).1 with
    | true =>
      rw [hkeep, if_pos rfl] at hkept
      simp only [head?_cons, hkeep, if_true]
      refine ((SumTree.push_spec hwf x).with_eq.imp (fun _ h => h) ?_).bind ?_
      · -- so many entries are not in the map
        rintro e ⟨rfl, hhigh⟩
        refine .inr ⟨rfl, fun _ _ => ?_⟩
        by_contra hfew
        have hlow := grown.height_lt hwf (by omega)
        omega
      rintro newMap' ⟨⟨hwf', hitems, -⟩, hpush⟩
      refine hnext.bind fun c' pos' => ?_
      refine ⟨after.length, Nat.lt_succ_self _, ⟨_, after, rfl, pos', hwf', ?_⟩, ?_⟩
      · rw [hitems]
        exact hkept
      · refine (grown.append hwf (SumTree.wellFormed_singleton x) (Nat.zero_le _) hpush).mono ?_
        rw [length_cons]
        omega
    | false =>
      rw [hkeep, if_neg (by simp), append_nil] at hkept
      simp only [head?_cons, hkeep]
      refine hnext.bind fun c' pos' => ?_
      refine ⟨after.length, Nat.lt_succ_self _, ⟨_, after, rfl, pos', hwf, hkept⟩, grown.mono ?_⟩
      rw [length_cons]
      omega

end TreeMap

end Gpui
