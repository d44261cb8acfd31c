import Gpui.SumTree.TreeMapSpec

/-! # TreeMap: maps in use

    Used as they are meant to be, maps stay in the order of their keys.  Two of the
    operations take that for granted of what they are called with: `extend` wants
    distinct keys, and `remove_range` wants targets that are not crossed. -/

set_option linter.unusedSectionVars false

namespace Gpui

open List

open Exec (Returns Ensures)

variable {K V : Type} [LinearOrder K]

namespace TreeMap

/-! ## Keys of entries -/

theorem below_key (key : K) (xs : List (MapEntry K V)) :
    Batch.below KeyedItem.key (⟨some key⟩ : MapKey K) xs = Batch.below MapEntry.key key xs :=
  filter_congr fun _ _ => decide_eq_decide.mpr MapKey.some_lt_some

theorem above_key (key : K) (xs : List (MapEntry K V)) :
    Batch.above KeyedItem.key (⟨some key⟩ : MapKey K) xs = Batch.above MapEntry.key key xs :=
  filter_congr fun _ _ => decide_eq_decide.mpr MapKey.some_lt_some

theorem equal_key (key : K) (xs : List (MapEntry K V)) :
    Batch.equal KeyedItem.key (⟨some key⟩ : MapKey K) xs = Batch.equal MapEntry.key key xs :=
  filter_congr fun x _ => decide_eq_decide.mpr (by
    show (⟨some x.key⟩ : MapKey K) = ⟨some key⟩ ↔ x.key = key
    simp)

theorem insertOne_key (xs : List (MapEntry K V)) (x : MapEntry K V) :
    Batch.insertOne KeyedItem.key xs x = Batch.insertOne MapEntry.key xs x := by
  rw [Batch.insertOne, Batch.insertOne, show (KeyedItem.key x : MapKey K) = ⟨some x.key⟩ from rfl,
    below_key, above_key]

theorem nodup_key {xs : List (MapEntry K V)} :
    (xs.map (KeyedItem.key : MapEntry K V → MapKey K)).Nodup ↔ (xs.map MapEntry.key).Nodup := by
  rw [List.Nodup, List.Nodup, pairwise_map, pairwise_map]
  refine List.Pairwise.iff fun {a b} => not_congr ?_
  show (⟨some a.key⟩ : MapKey K) = ⟨some b.key⟩ ↔ a.key = b.key
  simp

variable {m m' : TreeMap K V}

theorem insertOrReplace_spec (wf : m.WellFormed) (sorted : SortedKeys m.toList) (key : K)
    (value : V) :
    Ensures (fun r => r.1.WellFormed ∧
        r.1.toList = Batch.insertOne MapEntry.key m.toList ⟨key, value⟩ ∧
        r.2.toList = (Batch.equal MapEntry.key key m.toList).map MapEntry.value)
      (SumTree.OutOfRoom (Measured : List (MapEntry K V) → MapKey K → Prop) m.height 1)
      (insertOrReplace m key value) := by
  refine (SumTree.insertOrReplace_spec TracksKeys.ofMeasured wf sorted _).bind ?_
  rintro ⟨r, replaced⟩ ⟨hwf, hitems, hreplaced⟩
  refine ⟨hwf, by rw [hitems, insertOne_key], ?_⟩
  rw [← equal_key]
  refine Eq.trans ?_ (congrArg (List.map MapEntry.value) hreplaced)
  cases replaced <;> rfl

theorem insert_spec (wf : m.WellFormed) (sorted : SortedKeys m.toList) (key : K) (value : V) :
    Ensures (fun m' => m'.WellFormed ∧
        m'.toList = Batch.insertOne MapEntry.key m.toList ⟨key, value⟩)
      (SumTree.OutOfRoom (Measured : List (MapEntry K V) → MapKey K → Prop) m.height 1)
      (insert m key value) := by
  refine (SumTree.insertOrReplace_spec TracksKeys.ofMeasured wf sorted _).bind ?_
  rintro ⟨r, replaced⟩ ⟨hwf, hitems, -⟩
  exact ⟨hwf, by rw [hitems, insertOne_key]⟩

/-! ## Inserting many entries -/

/-- The entries of `extend` inserted one after another. -/
def insertAll (m : TreeMap K V) (iter : List (K × V)) : Run (TreeMap K V) :=
  iter.foldlM (fun m entry => insert m entry.1 entry.2) m

abbrev entries (iter : List (K × V)) : List (MapEntry K V) :=
  iter.map fun entry => ⟨entry.1, entry.2⟩

theorem insertAll_spec : ∀ {iter : List (K × V)} {m m' : TreeMap K V}, m.WellFormed →
    SortedKeys m.toList → insertAll m iter = .ok m' →
    m'.WellFormed ∧ m'.toList = (entries iter).foldl (Batch.insertOne MapEntry.key) m.toList := by
  intro iter
  induction iter with
  | nil =>
    intro m m' wf _ hrun
    obtain rfl := Except.ok.inj hrun
    exact ⟨wf, rfl⟩
  | cons entry iter ih =>
    intro m m' wf sorted hrun
    obtain ⟨m₁, hinsert, hrun⟩ := Exec.bind_eq_ok.mp hrun
    obtain ⟨wf₁, hitems⟩ := (insert_spec wf sorted entry.1 entry.2).of_ok hinsert
    have sorted₁ : SortedKeys m₁.toList := by
      rw [increasing_key, hitems]
      exact Batch.increasing_insertOne (increasing_key.mp sorted) _
    obtain ⟨wf', hitems'⟩ := ih wf₁ sorted₁ hrun
    exact ⟨wf', by rw [hitems', hitems]; rfl⟩

/-- Sorted insertions are the insertions of sorted items. -/
theorem sort_inserts {T S κ : Type} [KeyedItem T S κ] [LinearOrder κ] (order : UnstableSort T κ)
    (xs : List T) : ∃ ys : List T, ys.Perm xs ∧ order.sort (xs.map .insert) = ys.map .insert ∧
      ys.Pairwise fun x y => (KeyedItem.key x : κ) ≤ KeyedItem.key y := by
  have hperm := order.perm (xs.map .insert)
  have hrange : order.sort (xs.map .insert) ∈ Set.range (List.map (Edit.insert : T → Edit T κ)) := by
    rw [Set.range_list_map]
    intro e he
    obtain ⟨x, -, rfl⟩ := mem_map.mp (hperm.mem_iff.mp he)
    exact ⟨x, rfl⟩
  obtain ⟨ys, hys⟩ := hrange
  have hsorted := order.sorted (xs.map .insert)
  rw [← hys] at hperm hsorted
  rw [pairwise_map] at hsorted
  have hinj : Function.Injective (Edit.insert : T → Edit T κ) := fun _ _ h => Edit.insert.inj h
  exact ⟨ys, (map_perm_map_iff hinj).mp hperm, hys.symm, hsorted⟩

/-- **`extend`** is a batch of insertions in the order of the keys. -/
theorem extend_spec (order : UnstableSort (MapEntry K V) (MapKey K)) (wf : m.WellFormed)
    (sorted : SortedKeys m.toList) (iter : List (K × V)) :
    Ensures (fun m' => m'.WellFormed ∧ ∃ ys : List (MapEntry K V), ys.Perm (entries iter) ∧
        ys.Pairwise (fun x y => (KeyedItem.key x : MapKey K) ≤ KeyedItem.key y) ∧
        m'.toList = Batch.apply KeyedItem.key m.toList (Batch.puts KeyedItem.key ys))
      (SumTree.OutOfRoom (Measured : List (MapEntry K V) → MapKey K → Prop) m.height iter.length)
      (extend order m iter) := by
  have hedits : iter.map (fun entry => Edit.insert (⟨entry.1, entry.2⟩ : MapEntry K V)) =
      (entries iter).map (Edit.insert : _ → Edit (MapEntry K V) (MapKey K)) := by
    rw [map_map]
    rfl
  have hlen : ((entries iter).map (Edit.insert : _ → Edit (MapEntry K V) (MapKey K))).length =
      iter.length := by simp
  obtain ⟨ys, hperm, hsort, hys⟩ := sort_inserts order (entries iter)
  unfold extend
  rw [hedits, ← hlen]
  refine (SumTree.edit_spec TracksKeys.ofMeasured order wf sorted _).bind ?_
  rintro ⟨m', removed⟩ ⟨hwf, hitems, -⟩
  refine ⟨hwf, ys, hperm, hys, ?_⟩
  rw [hitems, hsort, map_map]
  rfl

/-- The two maps hold the same entries, in the order of their keys and no key twice. -/
def SameMap (m₁ m₂ : TreeMap K V) : Prop :=
  m₁.toList = m₂.toList ∧ SortedKeys m₁.toList

/-- A map in order is extended as by insertions exactly when the new keys are distinct. -/
theorem sameMap_extend_iff {order : UnstableSort (MapEntry K V) (MapKey K)} (wf : m.WellFormed)
    (sorted : SortedKeys m.toList) {iter : List (K × V)} {m₁ m₂ : TreeMap K V}
    (hextend : extend order m iter = .ok m₁) (hinsert : insertAll m iter = .ok m₂) :
    SameMap m₁ m₂ ↔ (iter.map Prod.fst).Nodup := by
  obtain ⟨-, ys, hperm, hys, hitems⟩ := (extend_spec order wf sorted iter).of_ok hextend
  obtain ⟨-, hitems₂⟩ := insertAll_spec wf sorted hinsert
  have hkeys : (iter.map Prod.fst).Nodup ↔
      (ys.map (KeyedItem.key : MapEntry K V → MapKey K)).Nodup := by
    rw [nodup_key, (hperm.map MapEntry.key).nodup_iff, map_map]
    rfl
  rw [hkeys]
  constructor
  · rintro ⟨-, hsorted⟩
    rw [hitems] at hsorted
    exact (Batch.increasing_apply_puts_iff sorted hys).mp hsorted
  · intro hnodup
    refine ⟨?_, ?_⟩
    · rw [hitems, hitems₂, Batch.apply_puts_eq_foldl sorted hys hnodup hperm.symm]
      exact congrArg (fun f => (entries iter).foldl f m.toList)
        (funext fun xs => funext fun x => insertOne_key xs x)
    · rw [hitems]
      exact (Batch.increasing_apply_puts_iff sorted hys).mpr hnodup

theorem extend_returns (order : UnstableSort (MapEntry K V) (MapKey K)) (wf : m.WellFormed)
    (sorted : SortedKeys m.toList) (low : m.height ≤ 15) {iter : List (K × V)}
    (hfew : iter.length ≤ nodeCapacity ^ 57) : ∃ m', extend order m iter = .ok m' := by
  obtain ⟨m', hrun, -⟩ :=
    SumTree.returns_of_room (extend_spec order wf sorted iter) determines_measured low hfew
  exact ⟨m', hrun⟩

/-! ## Ranges -/

/-- No entry lies before `start` and not before `stop`. -/
def NotCrossed (start stop : MapSeekTarget K) (xs : List (MapEntry K V)) : Prop :=
  ∀ x ∈ xs, start x.key = .gt → stop x.key = .gt

/-- What a range from `start` to `stop` leaves. -/
def outside (start stop : MapSeekTarget K) (xs : List (MapEntry K V)) : List (MapEntry K V) :=
  xs.filter fun x => start x.key = .gt ∨ stop x.key ≠ .gt

/-- Under a monotone target an increasing list is what lies before it and what does not. -/
theorem before_append_behind {target : MapSeekTarget K} (mono : target.Monotone) :
    ∀ {xs : List (MapEntry K V)}, SortedKeys xs → before target xs ++ behind target xs = xs := by
  intro xs
  induction xs with
  | nil => exact fun _ => rfl
  | cons x xs ih =>
    intro sorted
    obtain ⟨hx, sorted'⟩ := pairwise_cons.mp sorted
    have ih := ih sorted'
    by_cases hgt : target x.key = .gt
    · rw [before, behind, filter_cons_of_pos (by simpa using hgt),
        filter_cons_of_neg (by simpa using hgt), cons_append]
      exact congrArg (x :: ·) ih
    · -- nothing behind an entry that is not before the target is
      have hnone : ∀ y ∈ x :: xs, target y.key ≠ .gt := by
        intro y hy hgt'
        rcases mem_cons.mp hy with rfl | hy
        · exact hgt hgt'
        · exact hgt ((mono x.key y.key (MapKey.some_lt_some.mp (hx y hy)).le).1 hgt')
      rw [before, behind, filter_eq_nil_iff.mpr (by simpa using hnone),
        filter_eq_self.mpr (by simpa using hnone), nil_append]

variable {start stop : MapSeekTarget K}

/-- What lies outside of a range is glued from its two sides when they do not overlap. -/
theorem glued_eq_outside_iff (hstart : start.Monotone)
    {xs : List (MapEntry K V)} (sorted : SortedKeys xs) :
    before start xs ++ behind stop xs = outside start stop xs ↔ NotCrossed start stop xs := by
  constructor
  · intro h x hx hgt
    by_contra hne
    -- an entry on both sides is glued in twice, and no entry is outside twice
    have hnodup : (before start xs ++ behind stop xs).Nodup := by
      rw [h]
      exact (sorted.imp fun hab heq => (heq ▸ hab).false).sublist filter_sublist
    exact (nodup_append.mp hnodup).2.2 x (mem_filter.mpr ⟨hx, by simpa using hgt⟩) x
      (mem_filter.mpr ⟨hx, by simpa using hne⟩) rfl
  · intro hnot
    have hbefore : outside start stop (before start xs) = before start xs := by
      rw [outside, filter_eq_self]
      intro x hx
      have hgt := (mem_filter.mp hx).2
      simp only [decide_eq_true_eq] at hgt ⊢
      exact .inl hgt
    have hbehind : outside start stop (behind start xs) = behind stop xs := by
      rw [outside, filter_filter]
      refine filter_congr fun x hx => ?_
      by_cases hgt : start x.key = .gt
      · simp [hgt, hnot x hx hgt]
      · simp [hgt]
    conv_rhs => rw [← before_append_behind hstart sorted]
    rw [outside, filter_append]
    exact congrArg₂ (· ++ ·) hbefore.symm hbehind.symm

section

variable (hstart : start.Monotone) (hstop : stop.Monotone) (wf : m.WellFormed)
  (sorted : SortedKeys m.toList)
include hstart hstop wf sorted

theorem removeRange_toList (hrun : removeRange m start stop = .ok m') :
    m'.toList = before start m.toList ++ behind stop m.toList :=
  ((removeRange_spec hstart hstop wf sorted).of_ok hrun).2

/-- **`remove_range`** leaves what lies outside of the range exactly when the targets are
    not crossed over an entry. -/
theorem removeRange_iff (hrun : removeRange m start stop = .ok m') :
    (m'.toList = outside start stop m.toList ∧ SortedKeys m'.toList) ↔
      NotCrossed start stop m.toList := by
  rw [removeRange_toList hstart hstop wf sorted hrun, ← glued_eq_outside_iff hstart sorted]
  refine ⟨And.left, fun h => ⟨h, ?_⟩⟩
  rw [h]
  exact List.Pairwise.filter _ sorted

theorem removeRange_returns (low : m.height ≤ 15) : ∃ m', removeRange m start stop = .ok m' := by
  obtain ⟨m', hrun, -⟩ := SumTree.returns_of_room (removeRange_spec hstart hstop wf sorted)
    determines_measured low (Nat.one_le_pow _ _ (by decide))
  exact ⟨m', hrun⟩

end

/-! ## Reachable maps -/

/-- The maps that the operations lead to when `extend` is called with distinct keys and
    `remove_range` with targets that are not crossed. -/
inductive Reachable : TreeMap K V → Prop where
  | new : Reachable .new
  | fromOrderedEntries {iter : List (K × V)} {m : TreeMap K V} :
      (iter.map Prod.fst).Pairwise (· < ·) → fromOrderedEntries iter = .ok m → Reachable m
  | insert {m m' : TreeMap K V} {key : K} {value : V} :
      Reachable m → insert m key value = .ok m' → Reachable m'
  | insertOrReplace {m m' : TreeMap K V} {key : K} {value : V} {replaced : Option V} :
      Reachable m → insertOrReplace m key value = .ok (m', replaced) → Reachable m'
  | extend {m m' : TreeMap K V} {order : UnstableSort (MapEntry K V) (MapKey K)}
      {iter : List (K × V)} :
      Reachable m → (iter.map Prod.fst).Nodup → extend order m iter = .ok m' → Reachable m'
  | clear {m : TreeMap K V} : Reachable m → Reachable (clear m)
  | remove {m m' : TreeMap K V} {key : K} {removed : Option V} :
      Reachable m → remove m key = .ok (m', removed) → Reachable m'
  | removeRange {m m' : TreeMap K V} {start stop : MapSeekTarget K} :
      Reachable m → start.Monotone → stop.Monotone → NotCrossed start stop m.toList →
      removeRange m start stop = .ok m' → Reachable m'
  | update {m m' : TreeMap K V} {R : Type} {key : K} {f : V → V × R} {result : Option R} :
      Reachable m → update m key f = .ok (m', result) → Reachable m'
  | retain {m m' : TreeMap K V} {σ : Type} {predicate : σ → K → V → Bool × σ} {s : σ} :
      Reachable m → retain m predicate s = .ok m' → Reachable m'

/-- **Reachable maps** are in the order of their keys. -/
theorem Reachable.sound (reach : Reachable m) : m.WellFormed ∧ SortedKeys m.toList := by
  induction reach with
  | new | clear _ _ => exact ⟨SumTree.wellFormed_new, List.Pairwise.nil⟩
  | fromOrderedEntries hsorted hrun =>
    obtain ⟨hwf, hitems⟩ := (SumTree.fromIter_spec _).of_ok hrun
    refine ⟨hwf, ?_⟩
    rw [hitems, sortedKeys_iff, map_map]
    exact hsorted
  | insert _ hrun ih =>
    obtain ⟨hwf, hitems⟩ := (insert_spec ih.1 ih.2 _ _).of_ok hrun
    refine ⟨hwf, ?_⟩
    rw [increasing_key, hitems]
    exact Batch.increasing_insertOne (increasing_key.mp ih.2) _
  | insertOrReplace _ hrun ih =>
    obtain ⟨hwf, hitems, -⟩ := (insertOrReplace_spec ih.1 ih.2 _ _).of_ok hrun
    refine ⟨hwf, ?_⟩
    rw [increasing_key, hitems]
    exact Batch.increasing_insertOne (increasing_key.mp ih.2) _
  | extend _ hnodup hrun ih =>
    obtain ⟨hwf, ys, hperm, hys, hitems⟩ := (extend_spec _ ih.1 ih.2 _).of_ok hrun
    refine ⟨hwf, ?_⟩
    rw [hitems]
    refine (Batch.increasing_apply_puts_iff ih.2 hys).mpr ?_
    rw [nodup_key, (hperm.map MapEntry.key).nodup_iff, map_map]
    exact hnodup
  | remove _ hrun ih =>
    obtain ⟨hwf, hitems, -⟩ := (remove_spec ih.1 ih.2 _).of_ok hrun
    refine ⟨hwf, ?_⟩
    rw [hitems]
    exact List.Pairwise.sublist (Batch.below_append_above_sublist (increasing_key.mp ih.2)) ih.2
  | removeRange _ hstart hstop hnot hrun ih =>
    exact ⟨((removeRange_spec hstart hstop ih.1 ih.2).of_ok hrun).1,
      ((removeRange_iff hstart hstop ih.1 ih.2 hrun).mpr hnot).2⟩
  | @update m m' R key f result _ hrun ih =>
    obtain ⟨hwf, hitems, -⟩ := (update_spec ih.1 ih.2 _ _).of_ok hrun
    refine ⟨hwf, ?_⟩
    -- the keys are those that were there before
    have hkeys := congrArg (List.map MapEntry.key) ((increasing_key.mp ih.2).split key)
    rw [sortedKeys_iff] at ih ⊢
    rw [hitems, map_append, map_append, map_map]
    rw [map_append, map_append] at hkeys
    exact hkeys ▸ ih.2
  | retain _ hrun ih =>
    obtain ⟨hwf, hitems⟩ := (retain_spec ih.1 _ _).of_ok hrun
    refine ⟨hwf, ?_⟩
    rw [hitems]
    exact List.Pairwise.sublist (retained_sublist _ _ _) ih.2

end TreeMap

/-- The keys of `extend` inserted one after another. -/
def TreeSet.insertAll (s : TreeSet K) (iter : List K) : Run (TreeSet K) :=
  iter.foldlM TreeSet.insert s

theorem TreeSet.insertAll_eq (s : TreeSet K) (iter : List K) :
    TreeSet.insertAll s iter = TreeMap.insertAll s (iter.map fun key => (key, ())) := by
  rw [TreeMap.insertAll, foldlM_map]
  rfl

namespace TreeMap

/-- **Bulk insertion** into a reachable map, or a set, is insertion of one entry after
    another exactly when the new keys are distinct. -/
theorem extend_inserts_iff {m : TreeMap K V} (reach : Reachable m) {s : TreeSet K}
    (reachSet : Reachable s) (order : UnstableSort (MapEntry K V) (MapKey K))
    (orderSet : UnstableSort (MapEntry K Unit) (MapKey K)) :
    (∀ iter : List (K × V),
      (∀ m₁ m₂, extend order m iter = .ok m₁ → insertAll m iter = .ok m₂ →
        (SameMap m₁ m₂ ↔ (iter.map Prod.fst).Nodup)) ∧
      (m.height ≤ 15 → iter.length ≤ nodeCapacity ^ 57 → ∃ m₁, extend order m iter = .ok m₁)) ∧
    (∀ iter : List K,
      (∀ s₁ s₂, TreeSet.extend orderSet s iter = .ok s₁ → TreeSet.insertAll s iter = .ok s₂ →
        (SameMap s₁ s₂ ↔ iter.Nodup)) ∧
      (s.height ≤ 15 → iter.length ≤ nodeCapacity ^ 57 →
        ∃ s₁, TreeSet.extend orderSet s iter = .ok s₁)) := by
  obtain ⟨wf, sorted⟩ := reach.sound
  obtain ⟨wfSet, sortedSet⟩ := reachSet.sound
  refine ⟨fun iter => ⟨fun m₁ m₂ h₁ h₂ => sameMap_extend_iff wf sorted h₁ h₂,
    fun low hfew => extend_returns order wf sorted low hfew⟩, fun iter => ⟨fun s₁ s₂ h₁ h₂ => ?_, fun low hfew => ?_⟩⟩
  · rw [TreeSet.insertAll_eq] at h₂
    have hkeys : (iter.map fun key => (key, ())).map Prod.fst = iter := by
      rw [map_map]
      exact map_id iter
    rw [sameMap_extend_iff wfSet sortedSet h₁ h₂, hkeys]
  · exact extend_returns orderSet wfSet sortedSet low (by rwa [length_map])

theorem extend_inserts_twoKeys : ∃ m₁ : TreeMap Nat Nat,
    extend SumTree.mergeSorted .new [(2, 0), (1, 0)] = .ok m₁ :=
  ((extend_inserts_iff (V := Nat) .new (K := Nat) (s := .new) .new SumTree.mergeSorted
    SumTree.mergeSorted).1 [(2, 0), (1, 0)]).2 (by decide) (by decide)

/-- Two values for one key are both kept. -/
theorem extend_duplicates :
    ∃ m₁ m₂ : TreeMap Nat Nat, extend SumTree.mergeSorted .new [(1, 0), (1, 1)] = .ok m₁ ∧
      insertAll .new [(1, 0), (1, 1)] = .ok m₂ ∧ ¬ SameMap m₁ m₂ := by
  have hsorted : SortedKeys (SumTree.new : TreeMap Nat Nat).toList := List.Pairwise.nil
  obtain ⟨m₁, hextend⟩ := extend_returns SumTree.mergeSorted SumTree.wellFormed_new hsorted
    (by decide)
    (show [(1, 0), (1, 1)].length ≤ nodeCapacity ^ 57 by decide)
  have hinsert : insertAll (.new : TreeMap Nat Nat) [(1, 0), (1, 1)] = .ok _ := rfl
  refine ⟨m₁, _, hextend, hinsert, fun same => ?_⟩
  have hnodup := (sameMap_extend_iff SumTree.wellFormed_new hsorted hextend hinsert).mp same
  exact absurd hnodup (by decide)

/-- **Ranges**: from a reachable map `remove_range` leaves exactly the entries outside of
    the range, in order, as long as no entry lies before `start` and not before `stop`. -/
theorem removeRange_exact_iff {m : TreeMap K V} (reach : Reachable m)
    {start stop : MapSeekTarget K} (hstart : start.Monotone) (hstop : stop.Monotone) :
    (∀ m', removeRange m start stop = .ok m' →
      ((m'.toList = outside start stop m.toList ∧ SortedKeys m'.toList) ↔
        NotCrossed start stop m.toList)) ∧
      (m.height ≤ 15 → ∃ m', removeRange m start stop = .ok m') := by
  obtain ⟨wf, sorted⟩ := reach.sound
  exact ⟨fun m' hrun => removeRange_iff hstart hstop wf sorted hrun,
    removeRange_returns hstart hstop wf sorted⟩

/-- The map of the keys 1 and 2. -/
def oneTwo : TreeMap Nat Unit :=
  .leaf ⟨some 2⟩ [⟨1, ()⟩, ⟨2, ()⟩] [⟨some 1⟩, ⟨some 2⟩]

theorem reachable_oneTwo : Reachable oneTwo := by
  have hrun : fromOrderedEntries [(1, ()), (2, ())] = .ok oneTwo := rfl
  exact .fromOrderedEntries (by decide) hrun

theorem removeRange_exact_oneTwo : ∃ m', removeRange oneTwo (compare 1) (compare 2) = .ok m' :=
  (removeRange_exact_iff reachable_oneTwo (monotone_compare 1) (monotone_compare 2)).2 (by decide)

/-- A range from 2 to 1 duplicates the entry of 1. -/
theorem removeRange_duplicates : Reachable oneTwo ∧ MapSeekTarget.Monotone (compare 2) ∧
    MapSeekTarget.Monotone (compare 1) ∧ ∃ m' : TreeMap Nat Unit,
      removeRange oneTwo (compare 2) (compare 1) = .ok m' ∧
        m'.toList = [⟨1, ()⟩, ⟨1, ()⟩, ⟨2, ()⟩] ∧
        outside (compare 2) (compare 1) oneTwo.toList = [⟨1, ()⟩, ⟨2, ()⟩] := by
  obtain ⟨wf, sorted⟩ := reachable_oneTwo.sound
  have hstart := monotone_compare 2
  have hstop := monotone_compare 1
  obtain ⟨m', hrun⟩ := removeRange_returns hstart hstop wf sorted (by decide)
  refine ⟨reachable_oneTwo, hstart, hstop, m', hrun, ?_, by decide⟩
  rw [removeRange_toList hstart hstop wf sorted hrun]
  decide

end TreeMap

end Gpui
