import Gpui.Lib.BatchUpdate

/-! # Ordered maps

    A finite map from keys of a linear order: its entries, with strictly increasing keys.
    What is asked about a key is answered by the entry at it, by those up to it, or by
    those from it on. -/

structure OrderedMap (K V : Type) [LinearOrder K] where
  entries : List (K × V)
  increasing : Batch.Increasing Prod.fst entries

namespace OrderedMap

open List

variable {K V σ : Type} [LinearOrder K]

def empty : OrderedMap K V where
  entries := []
  increasing := List.Pairwise.nil

/-! ## Reading -/

def lookup (m : OrderedMap K V) (key : K) : Option V :=
  (m.entries.find? fun entry => entry.1 = key).map Prod.snd

/-- The entry with the greatest key up to `key`. -/
def closest (m : OrderedMap K V) (key : K) : Option (K × V) :=
  (m.entries.filter fun entry => entry.1 ≤ key).getLast?

/-- The entries whose keys are not below `key`. -/
def entriesFrom (m : OrderedMap K V) (key : K) : List (K × V) :=
  m.entries.filter fun entry => key ≤ entry.1

/-! ## Writing -/

def insert (m : OrderedMap K V) (key : K) (value : V) : OrderedMap K V where
  entries := Batch.insertOne Prod.fst m.entries (key, value)
  increasing := Batch.increasing_insertOne m.increasing (key, value)

def erase (m : OrderedMap K V) (key : K) : OrderedMap K V where
  entries := m.entries.filter fun entry => entry.1 ≠ key
  increasing := m.increasing.filter _

/-- The value of `key` is changed in place. -/
def modify (m : OrderedMap K V) (key : K) (f : V → V) : OrderedMap K V where
  entries := m.entries.map fun entry => if entry.1 = key then (entry.1, f entry.2) else entry
  increasing := by
    have hkey : ∀ entry : K × V,
        (if entry.1 = key then (entry.1, f entry.2) else entry).1 = entry.1 := by
      intro entry
      split <;> rfl
    refine List.pairwise_map.mpr (m.increasing.imp ?_)
    intro x y hlt
    rwa [hkey, hkey]

/-- The entries that a predicate with a state keeps, asked about one after the other. -/
def keep (predicate : σ → K → V → Bool × σ) : σ → List (K × V) → List (K × V)
  | _, [] => []
  | s, entry :: entries =>
    (if (predicate s entry.1 entry.2).1 then [entry] else []) ++
      keep predicate (predicate s entry.1 entry.2).2 entries

omit [LinearOrder K] in
theorem keep_sublist (predicate : σ → K → V → Bool × σ) :
    ∀ (s : σ) (entries : List (K × V)), (keep predicate s entries).Sublist entries := by
  intro s entries
  induction entries generalizing s with
  | nil => exact List.Sublist.slnil
  | cons entry entries ih =>
    rw [keep]
    split
    · exact (ih _).cons_cons entry
    · exact (ih _).cons entry

def retain (m : OrderedMap K V) (predicate : σ → K → V → Bool × σ) (s : σ) :
    OrderedMap K V where
  entries := keep predicate s m.entries
  increasing := List.Pairwise.sublist (keep_sublist predicate s m.entries) m.increasing

/-! ## Below a key, at it and above it -/

theorem lookup_eq (m : OrderedMap K V) (key : K) :
    m.lookup key = (Batch.equal Prod.fst key m.entries).head?.map Prod.snd := by
  rw [lookup, Batch.equal, head?_filter]

theorem entries_erase (m : OrderedMap K V) (key : K) :
    (m.erase key).entries =
      Batch.below Prod.fst key m.entries ++ Batch.above Prod.fst key m.entries := by
  have hsplit := m.increasing.split key
  have hequal : (Batch.equal Prod.fst key m.entries).filter (fun entry => entry.1 ≠ key) = [] :=
    filter_eq_nil_iff.mpr fun entry hentry => by simpa using (mem_filter.mp hentry).2
  have hbelow : (Batch.below Prod.fst key m.entries).filter (fun entry => entry.1 ≠ key) =
      Batch.below Prod.fst key m.entries :=
    filter_eq_self.mpr fun entry hentry => by
      have hlt : entry.1 < key := by simpa using (mem_filter.mp hentry).2
      simpa using hlt.ne
  have habove : (Batch.above Prod.fst key m.entries).filter (fun entry => entry.1 ≠ key) =
      Batch.above Prod.fst key m.entries :=
    filter_eq_self.mpr fun entry hentry => by
      have hlt : key < entry.1 := by simpa using (mem_filter.mp hentry).2
      simpa using hlt.ne'
  show m.entries.filter _ = _
  conv_lhs => rw [← hsplit]
  rw [filter_append, filter_append, hequal, hbelow, habove, append_nil]

theorem entries_modify (m : OrderedMap K V) (key : K) (f : V → V) :
    (m.modify key f).entries = Batch.below Prod.fst key m.entries ++
      (Batch.equal Prod.fst key m.entries).map (fun entry => (entry.1, f entry.2)) ++
      Batch.above Prod.fst key m.entries := by
  have hsplit := m.increasing.split key
  show m.entries.map _ = _
  conv_lhs => rw [← hsplit]
  rw [map_append, map_append]
  congr 1
  · congr 1
    · refine (map_congr_left fun entry hentry => ?_).trans (map_id _)
      have hlt : entry.1 < key := by simpa using (mem_filter.mp hentry).2
      rw [if_neg hlt.ne]
      rfl
    · refine map_congr_left fun entry hentry => ?_
      rw [if_pos (by simpa using (mem_filter.mp hentry).2)]
  · refine (map_congr_left fun entry hentry => ?_).trans (map_id _)
    have hlt : key < entry.1 := by simpa using (mem_filter.mp hentry).2
    rw [if_neg hlt.ne']
    rfl

end OrderedMap
