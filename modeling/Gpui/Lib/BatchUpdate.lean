import Mathlib

/-! # Batches of updates of a sorted list

    A list with strictly increasing keys is updated at several keys at once: an
    update drops what was there and may put an item in its place.  `apply` merges
    the list with updates that are sorted by key, and `removed` is what they drop. -/

namespace Batch

open List

variable {α κ : Type} [LinearOrder κ] (key : α → κ)

/-- The keys increase strictly. -/
def Increasing (xs : List α) : Prop :=
  xs.Pairwise fun x y => key x < key y

/-- The items below a key, at it and above it. -/
abbrev below (k : κ) (xs : List α) : List α := xs.filter fun x => key x < k

abbrev equal (k : κ) (xs : List α) : List α := xs.filter fun x => key x = k

abbrev above (k : κ) (xs : List α) : List α := xs.filter fun x => k < key x

/-- Merge updates into a list; an update is a key with the item to put there. -/
def apply : List α → List (κ × Option α) → List α
  | xs, []      => xs
  | xs, u :: us => below key u.1 xs ++ u.2.toList ++ apply (above key u.1 xs) us

def removed : List α → List (κ × Option α) → List α
  | _, []       => []
  | xs, u :: us => equal key u.1 xs ++ removed (above key u.1 xs) us

/-- Put one item in its place. -/
def insertOne (xs : List α) (x : α) : List α :=
  below key (key x) xs ++ x :: above key (key x) xs

variable {key}

variable {xs l : List α} {x : α} {us : List (κ × Option α)}

theorem Increasing.filter (inc : Increasing key xs) (p : α → Bool) :
    Increasing key (xs.filter p) :=
  List.Pairwise.filter p inc

/-- A key splits an increasing list in three. -/
theorem Increasing.split (inc : Increasing key xs) (k : κ) :
    below key k xs ++ equal key k xs ++ above key k xs = xs := by
  induction xs with
  | nil => rfl
  | cons x xs ih =>
    obtain ⟨hx, hxs⟩ := pairwise_cons.mp inc
    have ih := ih hxs
    rcases lt_trichotomy (key x) k with h | h | h
    · simpa [below, equal, above, h, h.ne, h.not_gt] using ih
    · have hbelow : below key k xs = [] :=
        filter_eq_nil_iff.mpr fun y hy => by simpa using (h ▸ hx y hy).le
      simpa [below, equal, above, h, hbelow] using ih
    · have hbelow : below key k xs = [] :=
        filter_eq_nil_iff.mpr fun y hy => by simpa using (h.trans (hx y hy)).le
      have hequal : equal key k xs = [] :=
        filter_eq_nil_iff.mpr fun y hy => by simpa using (h.trans (hx y hy)).ne'
      simpa [below, equal, above, h, h.ne', h.not_gt, hbelow, hequal] using ih

theorem below_append_above_sublist {k : κ} (inc : Increasing key xs) :
    (below key k xs ++ above key k xs).Sublist xs := by
  conv_rhs => rw [← inc.split k]
  exact (sublist_append_left _ _).append_right _

/-- At a key and above it nothing is lost by a cut at the key. -/
theorem equal_filter_le (k : κ) (xs : List α) :
    equal key k (xs.filter fun x => k ≤ key x) = equal key k xs := by
  rw [equal, filter_filter]
  exact filter_congr fun x _ => by
    by_cases h : key x = k <;> simp [h]

theorem above_filter_le (k : κ) (xs : List α) :
    above key k (xs.filter fun x => k ≤ key x) = above key k xs := by
  rw [above, filter_filter]
  exact filter_congr fun x _ => by
    by_cases h : k < key x
    · simp [h, h.le]
    · simp [h]

/-- A key that the first item is at, or is above. -/
theorem Increasing.at_head (inc : Increasing key (x :: xs)) :
    equal key (key x) (x :: xs) = [x] ∧ above key (key x) (x :: xs) = xs := by
  have hx := (pairwise_cons.mp inc).1
  constructor
  · rw [equal, filter_cons_of_pos (by simp),
      filter_eq_nil_iff.mpr fun y hy => by simpa using (hx y hy).ne']
  · rw [above, filter_cons_of_neg (by simp),
      filter_eq_self.mpr fun y hy => by simpa using hx y hy]

theorem Increasing.ahead_of_head {k : κ} (inc : Increasing key (x :: xs))
    (hlt : k < key x) : equal key k (x :: xs) = [] ∧ above key k (x :: xs) = x :: xs := by
  have hall : ∀ y ∈ x :: xs, k < key y := by
    intro y hy
    rcases mem_cons.mp hy with rfl | hy
    · exact hlt
    · exact hlt.trans ((pairwise_cons.mp inc).1 y hy)
  exact ⟨filter_eq_nil_iff.mpr fun y hy => by simpa using (hall y hy).ne',
    filter_eq_self.mpr fun y hy => by simpa using hall y hy⟩

/-- A cut of an increasing list, behind the items whose keys have a property that is
    inherited by the keys below them. -/
theorem Increasing.cut {p : κ → Bool} (hdown : ∀ a b, a ≤ b → p b = true → p a = true)
    {before after : List α} (inc : Increasing key (before ++ after))
    (hbefore : ∀ x ∈ before.getLast?, p (key x) = true)
    (hafter : ∀ x ∈ after.head?, p (key x) = false) :
    before = (before ++ after).filter (fun x => p (key x)) ∧
      after = (before ++ after).filter (fun x => !p (key x)) := by
  obtain ⟨incBefore, incAfter, -⟩ := pairwise_append.mp inc
  have hin : ∀ x ∈ before, p (key x) = true := by
    rcases eq_nil_or_concat' before with rfl | ⟨init, y, rfl⟩
    · simp
    have hy := hbefore y (by simp)
    intro x hx
    rcases mem_append.mp hx with hx | hx
    · have hlt := (pairwise_append.mp incBefore).2.2 x hx y (by simp)
      exact hdown _ _ hlt.le hy
    · obtain rfl : x = y := by simpa using hx
      exact hy
  have hout : ∀ x ∈ after, p (key x) = false := by
    cases after with
    | nil => simp
    | cons z after =>
      have hz := hafter z rfl
      intro x hx
      rcases mem_cons.mp hx with rfl | hx
      · exact hz
      · have hlt := (pairwise_cons.mp incAfter).1 x hx
        by_contra hx
        exact absurd (hdown _ _ hlt.le (by simpa using hx)) (by simp [hz])
  constructor
  · rw [filter_append, filter_eq_self.mpr hin,
      filter_eq_nil_iff.mpr (fun x hx => by simp [hout x hx]), append_nil]
  · rw [filter_append, filter_eq_nil_iff.mpr (fun x hx => by simp [hin x hx]),
      filter_eq_self.mpr (fun x hx => by simp [hout x hx]), nil_append]

/-- Increasing lists of the same items are equal. -/
theorem Increasing.ext {ys : List α} (hx : Increasing key xs) (hy : Increasing key ys)
    (h : ∀ x, x ∈ xs ↔ x ∈ ys) : xs = ys := by
  have nodup : ∀ {zs : List α}, Increasing key zs → zs.Nodup := fun hz =>
    hz.imp fun hab heq => (heq ▸ hab).false
  have hasymm : ∀ a b, a ∈ xs → b ∈ ys → key a < key b → key b < key a → a = b :=
    fun _ _ _ _ hab hba => absurd hab hba.not_gt
  exact List.Perm.eq_of_pairwise hasymm hx hy
    ((perm_ext_iff_of_nodup (nodup hx) (nodup hy)).mpr h)

/-! ## Updates at distinct keys -/

/-- The updates are sorted, each at a key of its own, and put items in their place. -/
structure Sound (key : α → κ) (us : List (κ × Option α)) : Prop where
  increasing : us.Pairwise fun u v => u.1 < v.1
  keyed : ∀ u ∈ us, ∀ x ∈ u.2, key x = u.1

theorem Sound.tail {u : κ × Option α} (sound : Sound key (u :: us)) :
    Sound key us :=
  ⟨(pairwise_cons.mp sound.increasing).2, fun v hv => sound.keyed v (by simp [hv])⟩

theorem mem_apply (sound : Sound key us) : ∀ {xs : List α} {x : α},
    x ∈ apply key xs us ↔ (x ∈ xs ∧ ∀ u ∈ us, u.1 ≠ key x) ∨ ∃ u ∈ us, u.2 = some x := by
  induction us with
  | nil => simp [apply]
  | cons u us ih =>
    intro xs x
    have hlt := (pairwise_cons.mp sound.increasing).1
    simp only [apply, mem_append, mem_filter, decide_eq_true_eq, Option.mem_toList,
      ih sound.tail, mem_cons, forall_eq_or_imp, exists_eq_or_imp]
    constructor
    · rintro ((⟨hx, hbelow⟩ | hx) | ⟨⟨hx, habove⟩, hne⟩ | h)
      · exact .inl ⟨hx, hbelow.ne', fun v hv => (hbelow.trans (hlt v hv)).ne'⟩
      · exact .inr (.inl hx)
      · exact .inl ⟨hx, habove.ne, hne⟩
      · exact .inr (.inr h)
    · rintro (⟨hx, hne, hnes⟩ | hx | h)
      · rcases lt_or_gt_of_ne hne with habove | hbelow
        · exact .inr (.inl ⟨⟨hx, habove⟩, hnes⟩)
        · exact .inl (.inl ⟨hx, hbelow⟩)
      · exact .inl (.inr hx)
      · exact .inr (.inr h)

theorem increasing_apply (sound : Sound key us) : ∀ {xs : List α},
    Increasing key xs → Increasing key (apply key xs us) := by
  induction us with
  | nil => exact fun inc => inc
  | cons u us ih =>
    intro xs inc
    have hlt := (pairwise_cons.mp sound.increasing).1
    have hrest : ∀ y ∈ apply key (above key u.1 xs) us, u.1 < key y := by
      intro y hy
      rcases (mem_apply sound.tail).mp hy with ⟨hy, -⟩ | ⟨v, hv, hy⟩
      · simpa using (mem_filter.mp hy).2
      · rw [sound.tail.keyed v hv y hy]
        exact hlt v hv
    have hput : ∀ y ∈ u.2.toList, key y = u.1 := fun y hy =>
      sound.keyed u (by simp) y (by simpa using hy)
    refine pairwise_append.mpr ⟨pairwise_append.mpr ⟨inc.filter _, ?_, ?_⟩,
      ih sound.tail (inc.filter _), ?_⟩
    · cases u.2 <;> simp
    · intro x hx y hy
      rw [hput y hy]
      simpa using (mem_filter.mp hx).2
    · intro x hx y hy
      refine lt_of_le_of_lt ?_ (hrest y hy)
      rcases mem_append.mp hx with hx | hx
      · exact le_of_lt (by simpa using (mem_filter.mp hx).2)
      · exact (hput x hx).le

/-- What the updates drop are the items at their keys. -/
theorem removed_eq_filter : ∀ {us : List (κ × Option α)} {xs : List α},
    us.Pairwise (fun u v => u.1 < v.1) → Increasing key xs →
    removed key xs us = xs.filter fun x => us.any fun u => u.1 = key x := by
  intro us
  induction us with
  | nil => simp [removed]
  | cons u us ih =>
    intro xs hus inc
    obtain ⟨hlt, hus⟩ := pairwise_cons.mp hus
    conv_rhs => rw [← inc.split u.1]
    rw [removed, ih hus (inc.filter _), filter_append, filter_append]
    have hbelow : (below key u.1 xs).filter (fun x => (u :: us).any fun v => v.1 = key x) = [] := by
      refine filter_eq_nil_iff.mpr fun x hx hany => ?_
      have hx : key x < u.1 := by simpa using (mem_filter.mp hx).2
      simp only [any_cons, Bool.or_eq_true, decide_eq_true_eq, any_eq_true] at hany
      rcases hany with h | ⟨v, hv, h⟩
      · exact hx.ne' h
      · exact (hx.trans (hlt v hv)).ne' h
    have hequal : (equal key u.1 xs).filter (fun x => (u :: us).any fun v => v.1 = key x) =
        equal key u.1 xs := by
      refine filter_eq_self.mpr fun x hx => ?_
      have hx : key x = u.1 := by simpa using (mem_filter.mp hx).2
      simp [hx]
    rw [hbelow, hequal, nil_append]
    congr 1
    refine filter_congr fun x hx => ?_
    have hx : u.1 < key x := by simpa using (mem_filter.mp hx).2
    simp [hx.ne]

/-! ## Insertions one after another -/

theorem mem_insertOne {y : α} :
    y ∈ insertOne key xs x ↔ (y ∈ xs ∧ key y ≠ key x) ∨ y = x := by
  simp only [insertOne, mem_append, mem_cons, mem_filter, decide_eq_true_eq]
  constructor
  · rintro (⟨hy, hlt⟩ | rfl | ⟨hy, hlt⟩)
    · exact .inl ⟨hy, hlt.ne⟩
    · exact .inr rfl
    · exact .inl ⟨hy, hlt.ne'⟩
  · rintro (⟨hy, hne⟩ | rfl)
    · rcases lt_or_gt_of_ne hne with h | h
      · exact .inl ⟨hy, h⟩
      · exact .inr (.inr ⟨hy, h⟩)
    · exact .inr (.inl rfl)

theorem increasing_insertOne (inc : Increasing key xs) (x : α) :
    Increasing key (insertOne key xs x) := by
  refine pairwise_append.mpr ⟨inc.filter _, pairwise_cons.mpr ⟨?_, inc.filter _⟩, ?_⟩
  · intro y hy
    simpa using (mem_filter.mp hy).2
  · intro y hy z hz
    have hyx : key y < key x := by simpa using (mem_filter.mp hy).2
    rcases mem_cons.mp hz with rfl | hz
    · exact hyx
    · exact hyx.trans (by simpa using (mem_filter.mp hz).2)

theorem increasing_foldl_insertOne : ∀ {l xs : List α}, Increasing key xs →
    Increasing key (l.foldl (insertOne key) xs) := by
  intro l
  induction l with
  | nil => exact fun inc => inc
  | cons x l ih => exact fun inc => ih (increasing_insertOne inc x)

theorem mem_foldl_insertOne : ∀ {l xs : List α} {y : α}, (l.map key).Nodup →
    (y ∈ l.foldl (insertOne key) xs ↔ (y ∈ xs ∧ key y ∉ l.map key) ∨ y ∈ l) := by
  intro l
  induction l with
  | nil => simp
  | cons x l ih =>
    intro xs y hnodup
    rw [map_cons, nodup_cons] at hnodup
    rw [foldl_cons, ih hnodup.2, mem_insertOne, map_cons, mem_cons, mem_cons,
      not_or]
    constructor
    · rintro (⟨⟨hy, hne⟩ | rfl, hnot⟩ | hy)
      · exact .inl ⟨hy, hne, hnot⟩
      · exact .inr (.inl rfl)
      · exact .inr (.inr hy)
    · rintro (⟨hy, hne, hnot⟩ | rfl | hy)
      · exact .inl ⟨.inl ⟨hy, hne⟩, hnot⟩
      · exact .inl ⟨.inr rfl, hnodup.1⟩
      · exact .inr hy

/-! ## A batch of insertions -/

/-- The updates that put items at their keys. -/
def puts (key : α → κ) (l : List α) : List (κ × Option α) :=
  l.map fun x => (key x, some x)

/-- A batch puts in all of its items, one behind the other. -/
theorem sublist_apply_puts : ∀ (l xs : List α), l.Sublist (apply key xs (puts key l)) := by
  intro l
  induction l with
  | nil => exact fun xs => nil_sublist _
  | cons x l ih =>
    intro xs
    have hl := ih (above key (key x) xs)
    show (x :: l).Sublist (below key (key x) xs ++ [x] ++ _)
    rw [append_assoc]
    exact ((hl.cons_cons x).trans (sublist_append_right _ _))

theorem sound_puts (sorted : l.Pairwise fun x y => key x ≤ key y)
    (hnodup : (l.map key).Nodup) : Sound key (puts key l) := by
  rw [List.Nodup, pairwise_map] at hnodup
  constructor
  · rw [puts, pairwise_map]
    exact (sorted.and hnodup).imp fun h => lt_of_le_of_ne h.1 h.2
  · intro u hu x hx
    obtain ⟨y, -, rfl⟩ := mem_map.mp hu
    obtain rfl : y = x := by simpa using hx
    rfl

/-- **A batch of insertions** in the order of the keys leaves an increasing list exactly
    when no two of them are at one key. -/
theorem increasing_apply_puts_iff (inc : Increasing key xs)
    (sorted : l.Pairwise fun x y => key x ≤ key y) :
    Increasing key (apply key xs (puts key l)) ↔ (l.map key).Nodup := by
  constructor
  · intro h
    have hl : l.Pairwise fun x y => key x < key y := List.Pairwise.sublist (sublist_apply_puts l xs) h
    rw [List.Nodup, pairwise_map]
    exact hl.imp fun hxy => hxy.ne
  · exact fun hnodup => increasing_apply (sound_puts sorted hnodup) inc

/-- At distinct keys a batch of insertions is one after another, in any order. -/
theorem apply_puts_eq_foldl {l' : List α} (inc : Increasing key xs)
    (sorted : l.Pairwise fun x y => key x ≤ key y) (hnodup : (l.map key).Nodup)
    (perm : l'.Perm l) : apply key xs (puts key l) = l'.foldl (insertOne key) xs := by
  have sound := sound_puts sorted hnodup
  have hnodup' : (l'.map key).Nodup := (perm.map key).nodup_iff.mpr hnodup
  refine (increasing_apply sound inc).ext (increasing_foldl_insertOne inc) fun x => ?_
  rw [mem_apply sound, mem_foldl_insertOne hnodup']
  have hkeys : key x ∉ l'.map key ↔ ∀ u ∈ puts key l, u.1 ≠ key x := by
    rw [(perm.map key).mem_iff]
    simp [puts]
  have hput : x ∈ l' ↔ ∃ u ∈ puts key l, u.2 = some x := by
    rw [perm.mem_iff]
    simp [puts]
  rw [hkeys, hput]

end Batch
