import Gpui.SumTree.Basic

/-! # TreeMap: entries and keys

    The summary of a `MapEntry` is its key, and adding summaries keeps the last
    one: the zero, which holds no key, is a unit on the left only. -/

namespace Gpui

/-- `Ord::cmp` on `Option<K>`: `None` lies below every key. -/
def optionCmp {K : Type} [LinearOrder K] : Option K → Option K → Ordering
  | none,   none   => .eq
  | none,   some _ => .lt
  | some _, none   => .gt
  | some a, some b => compare a b

structure MapKey (K : Type) where
  key : Option K
  deriving DecidableEq

structure MapKeyRef (K : Type) where
  key : Option K
  deriving DecidableEq

structure MapEntry (K V : Type) where
  key   : K
  value : V
  deriving DecidableEq

class KeyedItem (T : Type) (S K : outParam Type) extends Item T S where
  key : T → K

variable {K V : Type}

instance : Summary (MapKey K) where
  zero := ⟨none⟩
  addSummary := fun _ summary => summary

instance : LawfulSummary (MapKey K) where
  add_assoc := fun _ _ _ => rfl
  zero_add := fun _ => rfl

instance : KeyedItem (MapEntry K V) (MapKey K) (MapKey K) where
  summary := fun entry => ⟨some entry.key⟩
  key := fun entry => ⟨some entry.key⟩

instance : Dimension (MapKeyRef K) (MapKey K) where
  zero := ⟨none⟩
  addSummary := fun _ summary => ⟨summary.key⟩

instance : LawfulDimension (MapKeyRef K) (MapKey K) where
  add_add := fun _ _ _ => rfl

variable [LinearOrder K]

/-- `derive(Ord)` of a `MapKey`: no key lies below every key. -/
instance : LinearOrder (MapKey K) :=
  LinearOrder.lift' (fun k : MapKey K => (show WithBot K from k.key)) fun a b h => by
    cases a
    cases b
    cases h
    rfl

/-- `SeekTarget` of an ordered dimension: `Ord::cmp` with the position. -/
def keyTarget {D : Type} [LinearOrder D] (key : D) : SeekTarget D :=
  fun cursorLocation => compare key cursorLocation

def MapKey.cmp (a b : MapKey K) : Ordering := optionCmp a.key b.key

/-- `SeekTarget::cmp` of a `MapKeyRef`. -/
def MapKeyRef.cmp (target cursorLocation : MapKeyRef K) : Ordering :=
  optionCmp target.key cursorLocation.key

end Gpui
