import Gpui.SumTree.Find
import Gpui.SumTree.MapKey

/-! # SumTree: trees of keyed items

    Insertion, removal and batches of edits in a tree that is ordered by key.
    Each walks a cursor over the old tree and glues the slices to a new one. -/

namespace Gpui

variable {T S K : Type}

inductive Edit (T K : Type) where
  | insert (item : T)
  | remove (key : K)
  deriving DecidableEq

def Edit.key [KeyedItem T S K] : Edit T K → K
  | .insert item => KeyedItem.key item
  | .remove key  => key

/-- `sort_unstable_by_key`: a sorted permutation.  Which one, when keys are equal, is
    up to the library. -/
structure UnstableSort (T K : Type) {S : Type} [KeyedItem T S K] [LinearOrder K] where
  sort : List (Edit T K) → List (Edit T K)
  perm : ∀ edits, (sort edits).Perm edits
  sorted : ∀ edits, (sort edits).Pairwise fun a b => a.key ≤ b.key

namespace SumTree

variable [Summary S] [KeyedItem T S K] [Dimension K S] [LinearOrder K]

def get (t : SumTree T S) (key : K) : Option T :=
  (t.findExact (keyTarget key) .left).2.2

/-- `if let Some(item) = .. && item.key() == key`: the cursor, which stands on `item`,
    moves past it, and it is handed out. -/
def takeItem (cursor : Cursor T S K) (item : Option T) (key : K) :
    Run (Cursor T S K × Option T) :=
  match item with
  | some item =>
    if KeyedItem.key item = key then do
      let cursor ← cursor.next
      pure (cursor, some item)
    else
      pure (cursor, none)
  | none => pure (cursor, none)

def insertOrReplace (t : SumTree T S) (item : T) : Run (SumTree T S × Option T) := do
  let (cursor, newTree) ← (Cursor.new t).slice (keyTarget (KeyedItem.key item)) .left
  let (cursor, replaced) ← takeItem cursor (← cursor.item) (KeyedItem.key item)
  let newTree ← newTree.push item
  let (_, suffix) ← cursor.suffix
  let newTree ← newTree.append suffix
  pure (newTree, replaced)

def remove (t : SumTree T S) (key : K) : Run (SumTree T S × Option T) := do
  let (cursor, newTree) ← (Cursor.new t).slice (keyTarget key) .left
  let (cursor, removed) ← takeItem cursor (← cursor.item) key
  let (_, suffix) ← cursor.suffix
  let newTree ← newTree.append suffix
  pure (newTree, removed)

/-- The variables of `edit`. -/
structure EditState (T S K : Type) where
  cursor        : Cursor T S K
  newTree       : SumTree T S
  bufferedItems : List T
  removed       : List T

/-- `if old_item.key() < new_key` in the loop of `edit`: what was inserted before goes to
    the new tree, and the cursor moves on to `newKey`. -/
def EditState.advance (st : EditState T S K) (newKey : K) (oldItem : Option T) :
    Run (EditState T S K × Option T) :=
  if oldItem.any fun oldItem => KeyedItem.key oldItem < newKey then do
    let newTree ← st.newTree.extend st.bufferedItems
    let (cursor, slice) ← st.cursor.slice (keyTarget newKey) .left
    let newTree ← newTree.append slice
    let oldItem ← cursor.item
    pure ({ st with cursor := cursor, newTree := newTree, bufferedItems := [] }, oldItem)
  else
    pure (st, oldItem)

/-- The body of the loop in `edit`. -/
def editStep (st : EditState T S K) (edit : Edit T K) : Run (EditState T S K) := do
  let newKey := edit.key
  let oldItem ← st.cursor.item
  let (st, oldItem) ← st.advance newKey oldItem
  let (cursor, taken) ← takeItem st.cursor oldItem newKey
  let st := { st with cursor := cursor, removed := st.removed ++ taken.toList }
  match edit with
  | .insert item => pure { st with bufferedItems := st.bufferedItems ++ [item] }
  | .remove _    => pure st

/-- The tree after the edits, and the items removed. -/
def edit (order : UnstableSort T K) (t : SumTree T S) (edits : List (Edit T K)) :
    Run (SumTree T S × List T) :=
  if edits.isEmpty then
    pure (t, [])
  else do
    let (cursor, _) ← (Cursor.new t).seek (keyTarget (Dimension.zero S : K)) .left
    let st ← (order.sort edits).foldlM editStep
      { cursor := cursor, newTree := new, bufferedItems := [], removed := [] }
    let newTree ← st.newTree.extend st.bufferedItems
    let (_, suffix) ← st.cursor.suffix
    let newTree ← newTree.append suffix
    pure (newTree, st.removed)

end SumTree

end Gpui

/-! # TreeMap

    An ordered map kept as a tree of its entries.  A `TreeSet` is a map to nothing. -/

namespace Gpui

variable {K V : Type}

abbrev TreeMap (K V : Type) := SumTree (MapEntry K V) (MapKey K)

/-- `MapSeekTarget` is what its `cmp_cursor` says about a key. -/
abbrev MapSeekTarget (K : Type) := K → Ordering

/-- `MapSeekTargetAdaptor`: before the first entry every target lies ahead. -/
def mapSeekTargetAdaptor (target : MapSeekTarget K) : SeekTarget (MapKeyRef K) :=
  fun cursorLocation =>
    match cursorLocation.key with
    | some key => target key
    | none     => .gt

namespace TreeMap

variable [LinearOrder K]

/-- `SeekTarget` of a `MapKeyRef` that holds `key`. -/
def keyRef (key : K) : SeekTarget (MapKeyRef K) :=
  MapKeyRef.cmp ⟨some key⟩

def fromOrderedEntries (entries : List (K × V)) : Run (TreeMap K V) :=
  SumTree.fromIter (entries.map fun entry => ⟨entry.1, entry.2⟩)

def get (m : TreeMap K V) (key : K) : Option V :=
  match (SumTree.find m (keyRef key) .left).2.2 with
  | some item => if item.key = key then some item.value else none
  | none      => none

def containsKey (m : TreeMap K V) (key : K) : Bool :=
  (get m key).isSome

def insert (m : TreeMap K V) (key : K) (value : V) : Run (TreeMap K V) := do
  let (m, _) ← SumTree.insertOrReplace m (⟨key, value⟩ : MapEntry K V)
  pure m

def insertOrReplace (m : TreeMap K V) (key : K) (value : V) : Run (TreeMap K V × Option V) := do
  let (m, replaced) ← SumTree.insertOrReplace m (⟨key, value⟩ : MapEntry K V)
  pure (m, replaced.map MapEntry.value)

def extend (order : UnstableSort (MapEntry K V) (MapKey K)) (m : TreeMap K V)
    (iter : List (K × V)) : Run (TreeMap K V) := do
  let edits := iter.map fun entry => Edit.insert (⟨entry.1, entry.2⟩ : MapEntry K V)
  let (m, _) ← SumTree.edit order m edits
  pure m

def clear (_ : TreeMap K V) : TreeMap K V :=
  .new

def remove (m : TreeMap K V) (key : K) : Run (TreeMap K V × Option V) := do
  let (cursor, newTree) ← (Cursor.new m).slice (keyRef key) .left
  let (cursor, removed) ←
    if keyRef key (← cursor.«end») = .eq then
      match ← cursor.item with
      | some item => do
        let cursor ← cursor.next
        pure (cursor, some item.value)
      | none => throw .unwrapNone
    else
      pure (cursor, none)
  let (_, suffix) ← cursor.suffix
  let newTree ← newTree.append suffix
  pure (newTree, removed)

def removeRange (m : TreeMap K V) (start «end» : MapSeekTarget K) : Run (TreeMap K V) := do
  let (cursor, newTree) ← (Cursor.new m).slice (mapSeekTargetAdaptor start) .left
  let (cursor, _) ← cursor.seek (mapSeekTargetAdaptor «end») .left
  let (_, suffix) ← cursor.suffix
  newTree.append suffix

/-- `f` is handed the value in place: it returns the new one beside its result. -/
def update {R : Type} (m : TreeMap K V) (key : K) (f : V → V × R) :
    Run (TreeMap K V × Option R) := do
  let (cursor, newTree) ← (Cursor.new m).slice (keyRef key) .left
  let (cursor, newTree, result) ←
    if keyRef key (← cursor.«end») = .eq then
      match ← cursor.item with
      | some item => do
        let (value, result) := f item.value
        let newTree ← newTree.push ⟨item.key, value⟩
        let cursor ← cursor.next
        pure (cursor, newTree, some result)
      | none => throw .unwrapNone
    else
      pure (cursor, newTree, none)
  let (_, suffix) ← cursor.suffix
  let newTree ← newTree.append suffix
  pure (newTree, result)

/-- `predicate` is called on one entry after the other and may keep a state. -/
def retain {σ : Type} (m : TreeMap K V) (predicate : σ → K → V → Bool × σ) (s : σ) :
    Run (TreeMap K V) := do
  let cursor ← (Cursor.new m : Cursor (MapEntry K V) (MapKey K) (MapKeyRef K)).next
  Exec.loop .loopBound (fun ((cursor, newMap, s) :
      Cursor (MapEntry K V) (MapKey K) (MapKeyRef K) × TreeMap K V × σ) => do
    match ← cursor.item with
    | some item => do
      let (keep, s) := predicate s item.key item.value
      let newMap ← if keep then newMap.push item else pure newMap
      let cursor ← cursor.next
      pure (.again (cursor, newMap, s))
    | none => pure (.done newMap))
    m.size (cursor, .new, s)

end TreeMap

abbrev TreeSet (K : Type) := TreeMap K Unit

namespace TreeSet

variable [LinearOrder K]

def insert (s : TreeSet K) (key : K) : Run (TreeSet K) :=
  TreeMap.insert s key ()

def extend (order : UnstableSort (MapEntry K Unit) (MapKey K)) (s : TreeSet K)
    (iter : List K) : Run (TreeSet K) :=
  TreeMap.extend order s (iter.map fun key => (key, ()))

end TreeSet

end Gpui
