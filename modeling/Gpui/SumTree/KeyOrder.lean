import Gpui.SumTree.Slices
import Gpui.SumTree.TreeMap

/-! # SumTree: items in the order of their keys

    In a tree with strictly increasing keys the key of an item is the position
    behind it.  A target that is monotone in the keys is then monotone along the
    items, and what is in reach of it is a matter of keys alone. -/

set_option linter.unusedSectionVars false

namespace Gpui

variable {T S K : Type}

/-! ## Keys of maps -/

section MapKeys

variable [LinearOrder K]

@[simp] theorem MapKey.some_lt_some {a b : K} :
    (⟨some a⟩ : MapKey K) < ⟨some b⟩ ↔ a < b := WithBot.coe_lt_coe

theorem MapKey.none_le (k : MapKey K) : (⟨none⟩ : MapKey K) ≤ k :=
  bot_le (a := (show WithBot K from k.key))

end MapKeys

/-! ## Strictly increasing keys -/

section Keyed

variable [KeyedItem T S K] [LinearOrder K]

/-- The items have strictly increasing keys. -/
def SortedKeys (xs : List T) : Prop :=
  xs.Pairwise fun x y => KeyedItem.key x < (KeyedItem.key y : K)

instance [DecidableEq K] (xs : List T) : Decidable (SortedKeys xs) :=
  inferInstanceAs (Decidable (xs.Pairwise _))

theorem sortedKeys_append {xs ys : List T} :
    SortedKeys (xs ++ ys) ↔ SortedKeys xs ∧ SortedKeys ys ∧
      ∀ x ∈ xs, ∀ y ∈ ys, KeyedItem.key x < (KeyedItem.key y : K) :=
  List.pairwise_append

/-- The key of the last item, and the zero position before the first. -/
def lastKey [Dimension K S] (xs : List T) : K :=
  match xs.getLast? with
  | some x => KeyedItem.key x
  | none   => Dimension.zero S

@[simp] theorem lastKey_concat [Dimension K S] (xs : List T) (x : T) :
    lastKey (xs ++ [x]) = KeyedItem.key x := by
  simp [lastKey]

end Keyed

/-- Keys as positions: in strictly increasing order the position behind some items
    is the key of the last of them, and none lies below the zero position. -/
class LawfulKeyedItem (T S K : Type) [Summary S] [KeyedItem T S K] [Dimension K S]
    [LinearOrder K] : Prop where
  add_itemsSum : ∀ (k : K) (xs : List T) (x : T), SortedKeys (xs ++ [x]) →
    Dimension.addSummary k (itemsSum (xs ++ [x]) : S) = KeyedItem.key x
  zero_le : ∀ x : T, Dimension.zero S ≤ (KeyedItem.key x : K)

instance {K V : Type} [LinearOrder K] : LawfulKeyedItem (MapEntry K V) (MapKey K) (MapKey K) where
  add_itemsSum := by
    intro k xs x _
    show itemsSum (xs ++ [x]) = _
    rw [itemsSum_append _ (by simp)]
    rfl
  zero_le := fun x => MapKey.none_le _

/-! ## Targets -/

section Target

variable [Summary S] [KeyedItem T S K] [Dimension K S] [LinearOrder K]

theorem reached_keyTarget_left {k d : K} : reached (keyTarget k) .left d = true ↔ d < k := by
  simp [reached, keyTarget, compare_gt_iff_gt]

theorem reached_keyTarget_left_false {k d : K} :
    reached (keyTarget k) .left d = false ↔ k ≤ d := by
  rw [← not_lt, ← reached_keyTarget_left, Bool.not_eq_true]

end Target

/-- The positions of the items `xs` behind `D`-position are `f` of the last one. -/
def PositionedBy {D : Type} [Item T S] [Dimension D S] (f : T → D) (xs : List T) : Prop :=
  ∀ before x after, xs = before ++ x :: after → measure D (before ++ [x]) = f x

/-- A target that is monotone along the items one by one is monotone along the prefixes. -/
theorem MonotoneTarget.of_items {D : Type} [Item T S] [Dimension D S] {f : T → D}
    {target : SeekTarget D} {xs : List T} (hf : PositionedBy f xs)
    (hzero : ∀ x ∈ xs, (target (f x) = .gt → target (Dimension.zero S) = .gt) ∧
      (target (Dimension.zero S) = .lt → target (f x) = .lt))
    (hitems : xs.Pairwise fun x y => (target (f y) = .gt → target (f x) = .gt) ∧
      (target (f x) = .lt → target (f y) = .lt)) : MonotoneTarget target xs := by
  intro p q r hxs
  rcases List.eq_nil_or_concat' q with rfl | ⟨q, y, rfl⟩
  · rw [List.append_nil]
    exact ⟨id, id⟩
  have hy : measure D (p ++ (q ++ [y])) = f y := by
    rw [← List.append_assoc]
    exact hf (p ++ q) y r (by simp [hxs])
  rw [hy]
  rcases List.eq_nil_or_concat' p with rfl | ⟨p, x, rfl⟩
  · exact hzero y (by simp [hxs])
  · rw [hf p x (q ++ [y] ++ r) (by simp [hxs])]
    rw [hxs, List.append_assoc, List.pairwise_append] at hitems
    exact hitems.2.2 x (by simp) y (by simp)

section Maps

variable {V : Type} [LinearOrder K]

/-- The entries of a map have their keys for positions. -/
theorem positionedBy_mapKeyRef (xs : List (MapEntry K V)) :
    PositionedBy (fun x : MapEntry K V => (⟨some x.key⟩ : MapKeyRef K)) xs := by
  intro before x after _
  rw [measure_concat]
  rfl

/-- A target is monotone in the order of the keys. -/
def MapSeekTarget.Monotone (target : MapSeekTarget K) : Prop :=
  ∀ a b, a ≤ b → (target b = .gt → target a = .gt) ∧ (target a = .lt → target b = .lt)

theorem monotone_compare (key : K) : MapSeekTarget.Monotone (compare key) := by
  intro a b hab
  rw [compare_gt_iff_gt, compare_gt_iff_gt, compare_lt_iff_lt, compare_lt_iff_lt]
  exact ⟨fun h => lt_of_le_of_lt hab h, fun h => lt_of_lt_of_le h hab⟩

/-- A `MapKeyRef` seeks as its key does. -/
theorem keyRef_eq (key : K) : TreeMap.keyRef key = mapSeekTargetAdaptor (compare key) := by
  funext location
  unfold TreeMap.keyRef MapKeyRef.cmp mapSeekTargetAdaptor
  cases location.key <;> rfl

theorem sortedKeys_iff {xs : List (MapEntry K V)} :
    SortedKeys xs ↔ (xs.map MapEntry.key).Pairwise (· < ·) := by
  rw [SortedKeys, List.pairwise_map]
  exact List.Pairwise.iff fun {a b} => MapKey.some_lt_some

theorem monotoneTarget_adaptor {target : MapSeekTarget K} (mono : target.Monotone)
    {xs : List (MapEntry K V)} (sorted : SortedKeys xs) :
    MonotoneTarget (mapSeekTargetAdaptor target) xs := by
  refine .of_items (positionedBy_mapKeyRef xs) (fun x _ => ⟨fun _ => rfl, fun h => ?_⟩) ?_
  · cases h
  · rw [sortedKeys_iff, List.pairwise_map] at sorted
    exact sorted.imp fun {a b} hab => mono a.key b.key hab.le

end Maps

end Gpui
