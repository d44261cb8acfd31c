import Gpui.Lib.Fold
import Gpui.Panic

/-! # SumTree: the data model

    A `SumTree` is a B+ tree whose leaves hold items and whose nodes cache the
    sum of the item summaries below them.  `Arc` sharing is invisible to the
    operations, so a tree is a value here; the summary context is fixed for a
    tree, so it is part of the instances.

    Arithmetic on `u8` heights is the overflow-checked one. -/

namespace Gpui

def treeBase : Nat := 6

/-- The number of children or items a node has room for. -/
abbrev nodeCapacity : Nat := 2 * treeBase

/-! ## Summaries, items, dimensions -/

class Summary (S : Type) where
  zero : S
  addSummary : S → S → S

/-- The laws a summary has to meet.  Zero is a unit on the left only: for the
    map keys below, `x + zero = zero`. -/
class LawfulSummary (S : Type) [Summary S] : Prop where
  add_assoc : ∀ s t u : S, Summary.addSummary (Summary.addSummary s t) u =
    Summary.addSummary s (Summary.addSummary t u)
  zero_add : ∀ s : S, Summary.addSummary Summary.zero s = s

class Item (T : Type) (S : outParam Type) where
  summary : T → S

class Dimension (D S : Type) where
  zero : D
  addSummary : D → S → D

/-- An additive dimension: adding a sum is adding its parts in turn. -/
class LawfulDimension (D S : Type) [Summary S] [Dimension D S] : Prop where
  add_add : ∀ (d : D) (s t : S),
    Dimension.addSummary (Dimension.addSummary d s) t =
      Dimension.addSummary d (Summary.addSummary s t)

/-- Every summary is a dimension of itself. -/
instance {S : Type} [Summary S] : Dimension S S where
  zero := Summary.zero
  addSummary := Summary.addSummary

instance {S : Type} [Summary S] [LawfulSummary S] : LawfulDimension S S where
  add_add := LawfulSummary.add_assoc

instance {S : Type} : Dimension Unit S where
  zero := ()
  addSummary := fun _ _ => ()

instance {S : Type} [Summary S] : LawfulDimension Unit S where
  add_add := fun _ _ _ => rfl

/-- A `SeekTarget` is what its `cmp` says about a cursor location. -/
abbrev SeekTarget (D : Type) := D → Ordering

inductive Bias where
  | left
  | right
  deriving DecidableEq, Repr

/-! ## Trees -/

inductive SumTree (T S : Type) where
  | internal (height : Nat) (summary : S) (childSummaries : List S)
      (childTrees : List (SumTree T S))
  | leaf (summary : S) (items : List T) (itemSummaries : List S)

section
variable {T S : Type}

/-- `sum` of the source: the summaries added to zero in order. -/
def sum [Summary S] (ss : List S) : S :=
  ss.foldl Summary.addSummary Summary.zero

namespace SumTree

def isLeaf : SumTree T S → Bool
  | .internal .. => false
  | .leaf ..     => true

def height : SumTree T S → Nat
  | .internal h .. => h
  | .leaf ..       => 0

def summary : SumTree T S → S
  | .internal _ s _ _ => s
  | .leaf s _ _       => s

def childSummaries : SumTree T S → List S
  | .internal _ _ css _ => css
  | .leaf _ _ iss       => iss

/-- `Node::child_trees`, which panics on a leaf. -/
def childTrees : SumTree T S → Run (List (SumTree T S))
  | .internal _ _ _ cts => .ok cts
  | .leaf ..            => .error .leafHasNoChildTrees

/-- `Node::items`, which panics on an internal node. -/
def nodeItems : SumTree T S → Run (List T)
  | .internal ..  => .error .internalHasNoItems
  | .leaf _ its _ => .ok its

def isUnderflowing : SumTree T S → Bool
  | .internal _ _ _ cts => cts.length < treeBase
  | .leaf _ its _       => its.length < treeBase

def isEmpty : SumTree T S → Bool
  | .internal ..  => false
  | .leaf _ its _ => its.isEmpty

def new [Summary S] : SumTree T S :=
  .leaf Summary.zero [] []

mutual
/-- The items of a tree from left to right. -/
def toList : SumTree T S → List T
  | .internal _ _ _ cts => toListForest cts
  | .leaf _ its _       => its

/-- The items of a row of trees from left to right. -/
def toListForest : List (SumTree T S) → List T
  | []      => []
  | c :: cs => c.toList ++ toListForest cs
end

mutual
/-- A bound for the loops over a tree: its items, and two for each node. -/
def size : SumTree T S → Nat
  | .internal _ _ _ cts => sizeForest cts + 2
  | .leaf _ its _       => its.length + 2

/-- The size of a row of trees. -/
def sizeForest : List (SumTree T S) → Nat
  | []      => 0
  | c :: cs => c.size + sizeForest cs
end

@[simp] theorem toList_internal (h : Nat) (s : S) (css : List S)
    (cts : List (SumTree T S)) :
    (internal h s css cts).toList = toListForest cts := by rw [toList]

@[simp] theorem toList_leaf (s : S) (its : List T) (iss : List S) :
    (leaf s its iss).toList = its := by rw [toList]

@[simp] theorem toListForest_nil : toListForest ([] : List (SumTree T S)) = [] := by
  rw [toListForest]

@[simp] theorem toListForest_cons (c : SumTree T S) (cs : List (SumTree T S)) :
    toListForest (c :: cs) = c.toList ++ toListForest cs := by rw [toListForest]

@[simp] theorem toListForest_append (cs ds : List (SumTree T S)) :
    toListForest (cs ++ ds) = toListForest cs ++ toListForest ds := by
  induction cs with
  | nil => simp
  | cons c cs ih => simp [ih]

theorem toListForest_eq_flatten (cs : List (SumTree T S)) :
    toListForest cs = (cs.map toList).flatten := by
  induction cs with
  | nil => simp
  | cons c cs ih => simp [ih]

theorem toListForest_eq_flatMap (cs : List (SumTree T S)) :
    toListForest cs = cs.flatMap toList := toListForest_eq_flatten cs

@[simp] theorem size_internal (h : Nat) (s : S) (css : List S)
    (cts : List (SumTree T S)) :
    (internal h s css cts).size = sizeForest cts + 2 := by rw [size]

@[simp] theorem size_leaf (s : S) (its : List T) (iss : List S) :
    (leaf s its iss).size = its.length + 2 := by rw [size]

@[simp] theorem sizeForest_nil : sizeForest ([] : List (SumTree T S)) = 0 := by
  rw [sizeForest]

@[simp] theorem sizeForest_cons (c : SumTree T S) (cs : List (SumTree T S)) :
    sizeForest (c :: cs) = c.size + sizeForest cs := by rw [sizeForest]

@[simp] theorem sizeForest_append (cs ds : List (SumTree T S)) :
    sizeForest (cs ++ ds) = sizeForest cs + sizeForest ds := by
  induction cs with
  | nil => simp
  | cons c cs ih => simp [ih]; omega

theorem two_le_size (t : SumTree T S) : 2 ≤ t.size := by
  cases t <;> simp

end SumTree

/-! ## Measures of item lists -/

/-- The `D`-measure of a list of items: their summaries added to zero. -/
def measureFrom {D : Type} [Item T S] [Dimension D S] (d : D) (xs : List T) : D :=
  (xs.map Item.summary).foldl Dimension.addSummary d

def measure (D : Type) {T S : Type} [Item T S] [Dimension D S] (xs : List T) : D :=
  measureFrom (Dimension.zero S) xs

end

end Gpui
