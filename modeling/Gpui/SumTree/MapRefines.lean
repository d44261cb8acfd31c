import Gpui.SumTree.MapQueries
import Gpui.Lib.OrderedMap

/-! # TreeMap: an ordered map

    Operation by operation the tree holds the entries of an ordered map, and hands out
    what that map hands out. -/

set_option linter.unusedSectionVars false

namespace Gpui

open List

open Exec (Returns Ensures)

variable {K V R σ : Type} [LinearOrder K]

/-! ## Operations -/

/-- The operations that write to a map. -/
inductive MapOp (K V R σ : Type) where
  | insert (key : K) (value : V)
  | insertOrReplace (key : K) (value : V)
  | remove (key : K)
  | update (key : K) (f : V → V × R)
  | retain (predicate : σ → K → V → Bool × σ) (s : σ)
  | clear

/-- What an operation returns: nothing, a value of the map, or the result of a function. -/
inductive MapResult (V R : Type) where
  | unit
  | value (value : Option V)
  | result (result : Option R)
  deriving DecidableEq

/-- The operation on the tree. -/
def MapOp.run (m : TreeMap K V) : MapOp K V R σ → Run (TreeMap K V × MapResult V R)
  | insert key value => do
      let m ← TreeMap.insert m key value
      pure (m, .unit)
  | insertOrReplace key value => do
      let (m, replaced) ← TreeMap.insertOrReplace m key value
      pure (m, .value replaced)
  | remove key => do
      let (m, removed) ← TreeMap.remove m key
      pure (m, .value removed)
  | update key f => do
      let (m, result) ← TreeMap.update m key f
      pure (m, .result result)
  | retain predicate s => do
      let m ← TreeMap.retain m predicate s
      pure (m, .unit)
  | clear => pure (TreeMap.clear m, .unit)

/-- The operation on an ordered map. -/
def MapOp.apply (m : OrderedMap K V) : MapOp K V R σ → OrderedMap K V × MapResult V R
  | insert key value          => (m.insert key value, .unit)
  | insertOrReplace key value => (m.insert key value, .value (m.lookup key))
  | remove key                => (m.erase key, .value (m.lookup key))
  | update key f              =>
      (m.modify key fun value => (f value).1,
        .result ((m.lookup key).map fun value => (f value).2))
  | retain predicate s        => (m.retain predicate s, .unit)
  | clear                     => (.empty, .unit)

/-- One operation after the other, with what they return. -/
def MapOp.runs (m : TreeMap K V) :
    List (MapOp K V R σ) → Run (TreeMap K V × List (MapResult V R))
  | []        => pure (m, [])
  | op :: ops => do
      let (m, result) ← op.run m
      let (m, results) ← runs m ops
      pure (m, result :: results)

def MapOp.applies (m : OrderedMap K V) :
    List (MapOp K V R σ) → OrderedMap K V × List (MapResult V R)
  | []        => (m, [])
  | op :: ops =>
      let (m, result) := op.apply m
      let (m, results) := applies m ops
      (m, result :: results)

namespace TreeMap

open OrderedMap (lookup_eq entries_erase entries_modify)

/-! ## The entries as pairs -/

/-- The tree holds the entries of the map. -/
structure Refines (m : TreeMap K V) (model : OrderedMap K V) : Prop where
  wf : m.WellFormed
  entries : m.toList.map pair = model.entries

variable {m m' : TreeMap K V} {model : OrderedMap K V} {key : K}

theorem sorted_of_pairs {xs : List (MapEntry K V)} :
    SortedKeys xs ↔ Batch.Increasing Prod.fst (xs.map pair) := by
  rw [increasing_key, Batch.Increasing, Batch.Increasing, pairwise_map]
  rfl

theorem Refines.sorted (h : Refines m model) : SortedKeys m.toList := by
  rw [sorted_of_pairs, h.entries]
  exact model.increasing

/-- A condition on keys is one on the pairs. -/
theorem map_filter_pair (p : K → Bool) (xs : List (MapEntry K V)) :
    (xs.filter fun x => p x.key).map pair = (xs.map pair).filter fun entry => p entry.1 := by
  rw [filter_map]
  rfl

theorem map_insertOne (xs : List (MapEntry K V)) (key : K) (value : V) :
    (Batch.insertOne MapEntry.key xs ⟨key, value⟩).map pair =
      Batch.insertOne Prod.fst (xs.map pair) (key, value) := by
  rw [Batch.insertOne, Batch.insertOne, map_append, map_cons,
    map_filter_pair (fun k => k < key), map_filter_pair (fun k => key < k)]
  rfl

theorem map_keep (predicate : σ → K → V → Bool × σ) :
    ∀ (s : σ) (xs : List (MapEntry K V)),
      (retained predicate s xs).map pair = OrderedMap.keep predicate s (xs.map pair) := by
  intro s xs
  induction xs generalizing s with
  | nil => rfl
  | cons x xs ih =>
    rw [retained, map_append, ih, map_cons, OrderedMap.keep]
    congr 1
    show _ = if (predicate s x.key x.value).1 = true then [pair x] else []
    split <;> rfl

theorem map_equal (key : K) (xs : List (MapEntry K V)) :
    (Batch.equal MapEntry.key key xs).map pair = Batch.equal Prod.fst key (xs.map pair) :=
  map_filter_pair (fun k => k = key) xs

theorem map_below (key : K) (xs : List (MapEntry K V)) :
    (Batch.below MapEntry.key key xs).map pair = Batch.below Prod.fst key (xs.map pair) :=
  map_filter_pair (fun k => k < key) xs

theorem map_above (key : K) (xs : List (MapEntry K V)) :
    (Batch.above MapEntry.key key xs).map pair = Batch.above Prod.fst key (xs.map pair) :=
  map_filter_pair (fun k => key < k) xs

/-- The value at a key. -/
theorem Refines.lookup (h : Refines m model) (key : K) (f : V → R) :
    (Batch.equal MapEntry.key key m.toList).head?.map (fun x => f x.value) =
      (model.lookup key).map f := by
  rw [lookup_eq, ← h.entries, ← map_equal, head?_map, Option.map_map, Option.map_map]
  rfl

/-- What an operation hands out is what was found at its key. -/
theorem Refines.result (h : Refines m model) {f : V → R} {o : Option R}
    (ho : o.toList = (Batch.equal MapEntry.key key m.toList).map fun x => f x.value) :
    o = (model.lookup key).map f := by
  rw [← h.lookup key f, ← head?_map, ← ho]
  cases o <;> rfl

theorem Refines.value (h : Refines m model) {o : Option V}
    (ho : o.toList = (Batch.equal MapEntry.key key m.toList).map MapEntry.value) :
    o = model.lookup key :=
  (h.result (f := id) ho).trans (Option.map_id_apply)

/-! ## One operation -/

theorem Refines.insert (h : Refines m model) (wf : m'.WellFormed) {value : V}
    (hitems : m'.toList = Batch.insertOne MapEntry.key m.toList ⟨key, value⟩) :
    Refines m' (model.insert key value) := by
  refine ⟨wf, ?_⟩
  rw [hitems, map_insertOne, h.entries]
  rfl

/-- **Every operation** on the tree is the one on the map. -/
theorem Refines.step (h : Refines m model) (op : MapOp K V R σ) :
    Ensures (fun r => Refines r.1 (op.apply model).1 ∧ r.2 = (op.apply model).2)
      (SumTree.OutOfRoom (Measured : List (MapEntry K V) → MapKeyRef K → Prop) m.height
        (m.toList.length + 1)) (op.run m) := by
  have sorted := h.sorted
  have hone : 1 ≤ m.toList.length + 1 := Nat.le_add_left _ _
  cases op with
  | insert key value =>
    refine ((insert_spec h.wf sorted key value).imp (fun _ h => h)
      (fun _ he => (he.mono hone).of_determines determines_measured)).bind ?_
    rintro r ⟨wf, hitems⟩
    exact ⟨h.insert wf hitems, rfl⟩
  | insertOrReplace key value =>
    refine ((insertOrReplace_spec h.wf sorted key value).imp (fun _ h => h)
      (fun _ he => (he.mono hone).of_determines determines_measured)).bind ?_
    rintro ⟨r, replaced⟩ ⟨wf, hitems, hreplaced⟩
    exact ⟨h.insert wf hitems, congrArg MapResult.value (h.value hreplaced)⟩
  | remove key =>
    refine ((remove_spec h.wf sorted key).imp (fun _ h => h) (fun _ he => he.mono hone)).bind ?_
    rintro ⟨r, removed⟩ ⟨wf, hitems, hremoved⟩
    refine ⟨⟨wf, ?_⟩, congrArg MapResult.value (h.value hremoved)⟩
    show r.toList.map pair = (model.erase key).entries
    rw [hitems, map_append, map_below, map_above, h.entries, entries_erase]
  | update key f =>
    refine ((update_spec h.wf sorted key f).imp (fun _ h => h)
      (fun _ he => he.mono hone)).bind ?_
    rintro ⟨r, result⟩ ⟨wf, hitems, hresult⟩
    refine ⟨⟨wf, ?_⟩, congrArg MapResult.result (h.result hresult)⟩
    show r.toList.map pair = (model.modify key fun value => (f value).1).entries
    rw [hitems, map_append, map_append, map_below, map_above, map_map,
      entries_modify, ← h.entries, ← map_equal, map_map]
    rfl
  | retain predicate s =>
    refine ((retain_spec h.wf predicate s).imp (fun _ h => h)
      (fun _ he => he.mono (Nat.le_succ _))).bind ?_
    rintro r ⟨wf, hitems⟩
    refine ⟨⟨wf, ?_⟩, rfl⟩
    rw [hitems, map_keep, h.entries]
    rfl
  | clear => exact ⟨⟨SumTree.wellFormed_new, rfl⟩, rfl⟩

/-- A low tree has room for any operation. -/
theorem Refines.returns (h : Refines m model) (low : m.height ≤ 15) (op : MapOp K V R σ) :
    ∃ r, op.run m = .ok r := by
  have hlength := h.wf.length_toList_le
  have hpow : nodeCapacity ^ (m.height + 1) ≤ nodeCapacity ^ 16 :=
    Nat.pow_le_pow_right (by decide) (by omega)
  have hfew : nodeCapacity ^ 16 + 1 ≤ nodeCapacity ^ 57 := by decide
  obtain ⟨r, hrun, -⟩ :=
    SumTree.returns_of_room (h.step op) determines_measured low (by omega)
  exact ⟨r, hrun⟩

/-! ## Any run -/

/-- **Every run** of operations. -/
theorem Refines.runs : ∀ (ops : List (MapOp K V R σ)) {m m' : TreeMap K V}
    {model : OrderedMap K V} {results : List (MapResult V R)}, Refines m model →
    MapOp.runs m ops = .ok (m', results) →
    Refines m' (MapOp.applies model ops).1 ∧ results = (MapOp.applies model ops).2 := by
  intro ops
  induction ops with
  | nil =>
    intro m m' model results h hrun
    cases hrun
    exact ⟨h, rfl⟩
  | cons op ops ih =>
    intro m m' model results h hrun
    obtain ⟨⟨m₁, result⟩, hop, hrun⟩ := Exec.bind_eq_ok.mp hrun
    obtain ⟨⟨m₂, results₂⟩, hops, hrun⟩ := Exec.bind_eq_ok.mp hrun
    cases hrun
    obtain ⟨h₁, rfl⟩ := (h.step op).of_ok hop
    obtain ⟨h₂, rfl⟩ := ih h₁ hops
    exact ⟨h₂, rfl⟩

/-- Whatever is read from the tree is what is read from the map; a cursor and an iterator
    need room on their stacks. -/
structure Reads (m : TreeMap K V) (model : OrderedMap K V) : Prop where
  increasing : (m.toList.map MapEntry.key).Pairwise (· < ·)
  contents : m.toList.map pair = model.entries
  get : ∀ key, TreeMap.get m key = model.lookup key
  containsKey : ∀ key, TreeMap.containsKey m key = (model.lookup key).isSome
  first : TreeMap.first m = .ok model.entries.head?
  last : TreeMap.last m = .ok model.entries.getLast?
  iter : m.height ≤ 15 → TreeMap.iter m = .ok model.entries
  closest : m.height ≤ 15 → ∀ key, TreeMap.closest m key = .ok (model.closest key)
  iterFrom : m.height ≤ 15 → ∀ key, TreeMap.iterFrom m key = .ok (model.entriesFrom key)

theorem Refines.reads (h : Refines m model) : Reads m model := by
  have hget : ∀ key, TreeMap.get m key = model.lookup key := by
    intro key
    rw [get_eq h.wf h.sorted key]
    exact (h.lookup key id).trans Option.map_id_apply
  refine ⟨sortedKeys_iff.mp h.sorted, h.entries, hget, ?_, ?_, ?_, ?_, ?_, ?_⟩
  · intro key
    rw [TreeMap.containsKey, hget]
  · rw [first_eq h.wf, ← h.entries, head?_map]
  · rw [last_eq h.wf, ← h.entries, getLast?_map]
  · intro low
    rw [iter_eq h.wf low, h.entries]
  · intro low key
    rw [closest_eq h.wf h.sorted low key, OrderedMap.closest, ← h.entries,
      ← map_filter_pair (fun k => k ≤ key), getLast?_map]
  · intro low key
    rw [iterFrom_eq h.wf h.sorted low key, OrderedMap.entriesFrom, ← h.entries,
      ← map_filter_pair (fun k => key ≤ k)]

/-- A map that is empty, or is made of entries with increasing keys. -/
inductive Starts : TreeMap K V → OrderedMap K V → Prop where
  | new : Starts .new .empty
  | fromOrderedEntries {entries : List (K × V)} {m : TreeMap K V}
      (increasing : Batch.Increasing Prod.fst entries)
      (hm : TreeMap.fromOrderedEntries entries = .ok m) : Starts m ⟨entries, increasing⟩

theorem Starts.refines (starts : Starts m model) : Refines m model := by
  cases starts with
  | new => exact ⟨SumTree.wellFormed_new, rfl⟩
  | @fromOrderedEntries entries m increasing hm =>
    obtain ⟨wf, hitems⟩ := (SumTree.fromIter_spec _).of_ok hm
    refine ⟨wf, ?_⟩
    rw [hitems, map_map]
    exact map_id entries

/-- **A `TreeMap` is an ordered map**: after any run of operations the tree holds what the
    map holds, has returned what the map has returned, and is read as the map is. -/
theorem runs_refine_orderedMap {start : TreeMap K V} {model : OrderedMap K V}
    (starts : Starts start model) (ops : List (MapOp K V R σ)) {m : TreeMap K V}
    {results : List (MapResult V R)} (hrun : MapOp.runs start ops = .ok (m, results)) :
    results = (MapOp.applies model ops).2 ∧ Reads m (MapOp.applies model ops).1 ∧
      (m.height ≤ 15 → ∀ op : MapOp K V R σ, ∃ r, op.run m = .ok r) := by
  obtain ⟨h, rfl⟩ := starts.refines.runs ops hrun
  exact ⟨rfl, h.reads, fun low op => h.returns low op⟩

/-- Two entries go in, one is changed and one goes out. -/
theorem runs_refine_orderedMap_twoKeys :
    let ops : List (MapOp Nat Nat Nat Unit) :=
      [.insert 2 20, .insertOrReplace 1 10, .update 2 (fun value => (value + 1, value)), .remove 1]
    ∃ m, MapOp.runs .new ops = .ok (m, [.unit, .value none, .result (some 20), .value (some 10)]) ∧
      Reads m (MapOp.applies .empty ops).1 := by
  intro ops
  have hresults : (MapOp.runs .new ops).map Prod.snd =
      .ok [.unit, .value none, .result (some 20), .value (some 10)] := by decide +kernel
  obtain ⟨⟨m, results⟩, hrun, rfl⟩ := Exec.map_eq_ok.mp hresults
  exact ⟨m, hrun, (runs_refine_orderedMap .new ops hrun).2.1⟩

/-- The entries of the first keys. -/
abbrev firstKeys (n : Nat) : List (Nat × Unit) :=
  (List.range n).map fun key => (key, ())

theorem firstKeys_increasing (n : Nat) : Batch.Increasing Prod.fst (firstKeys n) :=
  pairwise_map.mpr pairwise_lt_range

/-- A map of so many entries is too deep for the cursor of `remove`. -/
theorem remove_deep {n : Nat} (hmany : 12 ^ 16 < n) (hfew : n ≤ nodeCapacity ^ 256) :
    ∃ m : TreeMap Nat Unit, TreeMap.fromOrderedEntries (firstKeys n) = .ok m ∧
      ∃ e, TreeMap.remove m 0 = .error e := by
  obtain ⟨m, hm, wf, hitems⟩ := ((SumTree.fromIter_spec (S := MapKey Nat)
    ((firstKeys n).map fun entry => (⟨entry.1, entry.2⟩ : MapEntry Nat Unit))).imp
    (fun _ h => h) (fun e he => absurd he.2 (by simpa using hfew))).returns
  have hdeep : 16 ≤ m.height := by
    have hle := wf.length_toList_le
    rw [hitems, length_map, length_map, length_range] at hle
    have := (Nat.pow_lt_pow_iff_right (show 1 < 12 by decide)).mp (hmany.trans_le hle)
    omega
  -- the last key is not 0
  obtain ⟨last, rfl⟩ : ∃ last, n = last + 1 :=
    ⟨n - 1, by omega⟩
  obtain ⟨e, he⟩ := Cursor.slice_deep (keyRef 0) .left wf hdeep (by
    rw [hitems, firstKeys, range_succ, map_append, map_append,
      map_singleton, map_singleton, measure_concat]
    exact (reached_keyRef .left 0 last).trans (decide_eq_false (Nat.not_lt_zero last)))
  refine ⟨m, hm, e, ?_⟩
  unfold TreeMap.remove
  rw [he]
  rfl

/-- From entries in order a map is made that nothing can be removed from. -/
theorem remove_panics : Batch.Increasing Prod.fst (firstKeys (12 ^ 16 + 1)) ∧
    ∃ m : TreeMap Nat Unit, TreeMap.fromOrderedEntries (firstKeys (12 ^ 16 + 1)) = .ok m ∧
      ∃ e, TreeMap.remove m 0 = .error e :=
  ⟨firstKeys_increasing _, remove_deep (Nat.lt_succ_self _) (by decide +kernel)⟩

end TreeMap

end Gpui
