import Gpui.SumTree.Deep

/-! # SumTree: what seeks and slices mean

    The abstract model of a seek is the longest prefix of the items that ends in
    reach of the target.  For a target that is monotone along the items, seeks,
    slices and summaries are about this prefix. -/

set_option linter.unusedSectionVars false

namespace Gpui

open Exec (Returns Ensures)

variable {T S D : Type} [Summary S] [Item T S] [Dimension D S]

/-! ## The prefix in reach -/

/-- The longest prefix of `xs` all of whose end positions the target reaches; `d` is
    the position before it. -/
def reachedFrom (target : SeekTarget D) (bias : Bias) (d : D) : List T → List T
  | []      => []
  | x :: xs =>
      if reached target bias (Dimension.addSummary d (Item.summary x)) then
        x :: reachedFrom target bias (Dimension.addSummary d (Item.summary x)) xs
      else
        []

/-- The comparison with the target only falls along the prefixes of `xs`. -/
def MonotoneTarget (target : SeekTarget D) (xs : List T) : Prop :=
  ∀ p q r, xs = p ++ q ++ r →
    (target (measure D (p ++ q)) = .gt → target (measure D p) = .gt) ∧
      (target (measure D p) = .lt → target (measure D (p ++ q)) = .lt)

variable {target : SeekTarget D} {bias : Bias}

theorem monotoneTarget_iff {xs : List T} : MonotoneTarget target xs ↔
    ∀ j ≤ xs.length, ∀ i ≤ j,
      (target (measure D (xs.take j)) = .gt → target (measure D (xs.take i)) = .gt) ∧
        (target (measure D (xs.take i)) = .lt → target (measure D (xs.take j)) = .lt) := by
  constructor
  · intro mono j _ i hi
    have htake : xs.take i ++ (xs.take j).drop i = xs.take j := by
      rw [← Nat.min_eq_left hi, ← List.take_take, Nat.min_eq_left hi, List.take_append_drop]
    have h := mono (xs.take i) ((xs.take j).drop i) (xs.drop j)
    rw [htake, List.take_append_drop] at h
    exact h rfl
  · rintro h p q r rfl
    have h := h (p ++ q).length (by simp) p.length (by simp)
    rwa [List.take_left, List.append_assoc, List.take_left] at h

instance (xs : List T) : Decidable (MonotoneTarget target xs) :=
  decidable_of_iff _ monotoneTarget_iff.symm

/-- What is in reach of a monotone target stays so on the way to it. -/
theorem MonotoneTarget.reached_of_append {xs p q r : List T} (mono : MonotoneTarget target xs)
    (hxs : xs = p ++ q ++ r) (hreached : reached target bias (measure D (p ++ q)) = true) :
    reached target bias (measure D p) = true := by
  obtain ⟨hgt, hlt⟩ := mono p q r hxs
  simp only [reached, Bool.or_eq_true, Bool.and_eq_true, beq_iff_eq] at hreached ⊢
  rcases hreached with h | ⟨h, hb⟩
  · exact .inl (hgt h)
  · cases hp : target (measure D p) with
    | gt => exact .inl rfl
    | eq => exact .inr ⟨rfl, hb⟩
    | lt => rw [hlt hp] at h; cases h

/-- A cut whose left side is in reach, and whose next item is not, is the longest
    prefix in reach. -/
theorem reachedFrom_eq {xs : List T} (mono : MonotoneTarget target xs) :
    ∀ {before mid after : List T},
      xs = before ++ mid ++ after →
      (mid ≠ [] → reached target bias (measure D (before ++ mid)) = true) →
      (∀ x ∈ after.head?, reached target bias (measure D (before ++ mid ++ [x])) = false) →
      reachedFrom target bias (measure D before) (mid ++ after) = mid := by
  intro before mid
  induction mid generalizing before with
  | nil =>
    intro after hxs _ hnext
    cases after with
    | nil => rfl
    | cons x after =>
      have hx := hnext x rfl
      rw [List.append_nil, measure_concat] at hx
      simp only [List.nil_append, reachedFrom]
      rw [if_neg (by simpa using hx)]
  | cons x mid ih =>
    intro after hxs hreached hnext
    have hx : reached target bias (measure D (before ++ [x])) = true := by
      refine mono.reached_of_append (q := mid) (r := after) (by simp [hxs]) ?_
      simpa using hreached (by simp)
    have hrec : reachedFrom target bias (measure D (before ++ [x])) (mid ++ after) = mid :=
      ih (by simp [hxs]) (fun _ => by simpa using hreached (by simp)) (by simpa using hnext)
    rw [measure_concat] at hx hrec
    simp only [List.cons_append, reachedFrom]
    rw [if_pos hx]
    exact congrArg (x :: ·) hrec

/-! ## Cursors -/

/-- The states of a cursor on `root` that seeks, slices and summaries lead to. -/
inductive Positioned (root : SumTree T S) : Cursor T S D → Prop where
  | seek {c c' : Cursor T S D} {target : SeekTarget D} {bias : Bias} {found : Bool} :
      c.tree = root → c.seek target bias = .ok (c', found) → Positioned root c'
  | firstSlice {c' : Cursor T S D} {target : SeekTarget D} {bias : Bias} {r : SumTree T S} :
      (Cursor.new root).slice target bias = .ok (c', r) → Positioned root c'
  | slice {c c' : Cursor T S D} {target : SeekTarget D} {bias : Bias} {r : SumTree T S} :
      Positioned root c → c.slice target bias = .ok (c', r) → Positioned root c'

section Semantics

variable [LawfulSummary S] [LawfulDimension D S] {root : SumTree T S} {c : Cursor T S D}

theorem Positioned.at (hroot : root.WellFormed) (positioned : Positioned root c) :
    ∃ before after, c.At Measured root before after := by
  induction positioned with
  | seek htree h =>
    obtain ⟨mid, after, stopped, -⟩ := (Cursor.seek_spec Tracks.measured hroot htree).of_ok h
    exact ⟨_, _, stopped.pos⟩
  | firstSlice h =>
    obtain ⟨mid, after, stopped, -⟩ :=
      (Cursor.slice_spec Tracks.measured hroot (.inl ⟨rfl, rfl, rfl⟩)).of_ok h
    exact ⟨_, _, stopped.pos⟩
  | slice _ h ih =>
    obtain ⟨before, after, pos⟩ := ih
    obtain ⟨mid, after, stopped, -⟩ :=
      (Cursor.slice_spec Tracks.measured hroot (.inr pos)).of_ok h
    exact ⟨_, _, stopped.pos⟩

/-- A cursor that stops under a monotone target has passed the prefix in reach. -/
theorem Cursor.Stopped.mid_eq {before ahead mid after : List T}
    (stopped : c.Stopped Measured target bias root before ahead mid after)
    (mono : MonotoneTarget target root.toList) :
    reachedFrom target bias (measure D before) ahead = mid := by
  obtain ⟨rfl, pos, hreached, hnext⟩ := stopped
  have hposition : c.position = measure D (before ++ mid) := pos.position
  refine reachedFrom_eq mono pos.items.symm ?_ ?_
  · rwa [← hposition]
  · intro x hx
    rw [measure_concat, ← hposition]
    exact hnext x hx

/-- What a cursor shows once it has passed the items `before`. -/
structure Cursor.Passed (root : SumTree T S) (before after : List T) (c : Cursor T S D) :
    Prop where
  items : before ++ after = root.toList
  start : c.start = measure D before
  item : c.item = .ok after.head?

theorem Cursor.At.passed {before after : List T} (pos : c.At Measured root before after) :
    c.Passed root before after :=
  ⟨pos.items, pos.position, pos.item_eq⟩

/-- The longest prefix in reach of a target, sliced off the items `ahead` of `c`. -/
structure Cursor.Slices (root : SumTree T S) (before ahead : List T) (target : SeekTarget D)
    (bias : Bias) (c c' : Cursor T S D) (r : SumTree T S) : Prop where
  slice : c.slice target bias = .ok (c', r)
  items : r.toList = reachedFrom target bias c.start ahead
  passed : ∃ after, ahead = r.toList ++ after ∧ c'.Passed root (before ++ r.toList) after
  summary : ∀ (O : Type) [Dimension O S] [LawfulDimension O S],
    ∃ c'', c.summary O target bias = .ok (c'', measure O r.toList)

theorem Cursor.Standing.slices {before ahead : List T} (hroot : root.WellFormed)
    (hle : root.height ≤ 15) (standing : c.Standing Measured root before ahead) (bias : Bias)
    (mono : MonotoneTarget target root.toList) (hahead : target c.start ≠ .lt) :
    ∃ c' r, c.Slices root before ahead target bias c' r := by
  have hstart : c.start = measure D before := standing.position Tracks.measured
  obtain ⟨c', r, mid, after, hslice, stopped, -, rfl⟩ :=
    Cursor.slice_returns target bias hroot hle standing hahead
  refine ⟨c', r, hslice, ?_, ⟨after, stopped.split, stopped.pos.passed⟩, ?_⟩
  · rw [hstart, stopped.mid_eq mono]
  · intro O _ _
    obtain ⟨c'', o, mid, after, hsummary, stopped', rfl⟩ :=
      Cursor.summary_returns (O := O) target bias hroot hle standing hahead
    exact ⟨c'', by rw [hsummary, ← stopped'.mid_eq mono, stopped.mid_eq mono]⟩

/-- **Seeks and slices**: on a tree of at most 15 levels, `seek` passes the longest
    prefix in reach of a monotone target.  From any position so reached `slice`
    returns what it passes, `summary` measures the same, and `suffix` is the rest. -/
theorem seek_slice_semantics (hroot : root.WellFormed) (hle : root.height ≤ 15) :
    (∀ (c : Cursor T S D) (target : SeekTarget D) (bias : Bias), c.tree = root →
      MonotoneTarget target root.toList → target (Dimension.zero S) ≠ .lt →
      ∃ c' found after, c.seek target bias = .ok (c', found) ∧
        c'.Passed root (reachedFrom target bias (Dimension.zero S) root.toList) after) ∧
    ∀ c : Cursor T S D, c = .new root ∨ Positioned root c →
      ∃ before ahead, before ++ ahead = root.toList ∧ c.start = measure D before ∧
        (Positioned root c → c.item = .ok ahead.head?) ∧
        (∀ (target : SeekTarget D) (bias : Bias), MonotoneTarget target root.toList →
          target c.start ≠ .lt → ∃ c' r, c.Slices root before ahead target bias c' r) ∧
        ∃ c' r, c.suffix = .ok (c', r) ∧ r.toList = ahead := by
  constructor
  · intro c target bias htree mono hzero
    obtain ⟨c', found, mid, after, hseek, stopped, -⟩ :=
      Cursor.seek_returns target bias hroot hle htree hzero
    refine ⟨c', found, after, hseek, ?_⟩
    have hmid := stopped.mid_eq mono
    rw [measure_nil] at hmid
    rw [hmid]
    exact stopped.pos.passed
  · intro c hc
    have hstanding : ∃ before ahead, c.Standing Measured root before ahead ∧
        (Positioned root c → c.item = .ok ahead.head?) := by
      rcases hc with rfl | positioned
      · refine ⟨[], root.toList, .inl ⟨rfl, rfl, rfl⟩, fun positioned => ?_⟩
        obtain ⟨before, ahead, pos⟩ := positioned.at hroot
        exact absurd pos.didSeek (by simp [Cursor.new])
      · obtain ⟨before, ahead, pos⟩ := positioned.at hroot
        exact ⟨before, ahead, .inr pos, fun _ => pos.item_eq⟩
    obtain ⟨before, ahead, standing, hitem⟩ := hstanding
    refine ⟨before, ahead, ?_, standing.position Tracks.measured, hitem, ?_, ?_⟩
    · rcases standing with ⟨-, rfl, rfl⟩ | pos
      · rfl
      · exact pos.items
    · intro target bias mono hahead
      exact standing.slices hroot hle bias mono hahead
    · obtain ⟨c', r, hsuffix, -, -, hitems⟩ := Cursor.suffix_returns hroot hle standing
      exact ⟨c', r, hsuffix, hitems⟩

end Semantics

/-- A seek into the first leaf, and slices from there into the second one. -/
theorem seek_slice_semantics_integersTree :
    ∃ c found after, (Cursor.new integersTree).seek (atCount 7) .right = .ok (c, found) ∧
      c.Passed integersTree (integers.take 7) after ∧ c.start.count = 7 ∧
      ∃ before ahead, before ++ ahead = integers ∧ c.start = measure IntegersSummary before ∧
        (∃ c' r, c.Slices integersTree before ahead (atCount 15) .left c' r) ∧
        ∃ c' r, c.suffix = .ok (c', r) ∧ r.toList = ahead := by
  obtain ⟨hseeks, hslices⟩ := seek_slice_semantics (D := IntegersSummary)
    reachable_integersTree.wellFormed (by decide)
  obtain ⟨c, found, after, hseek, hpassed⟩ := hseeks (.new integersTree) (atCount 7) .right rfl
    (by decide +kernel) (by decide)
  obtain ⟨before, ahead, hsplit, hstart, -, hslice, hsuffix⟩ := hslices c (.inr (.seek rfl hseek))
  have hcount : c.start.count = 7 := by
    cases hseek.symm.trans (show _ = .ok (_, _) from rfl)
    rfl
  have htarget : atCount 15 c.start ≠ .lt := by
    unfold atCount
    rw [hcount]
    decide
  exact ⟨c, found, after, hseek, hpassed, hcount, before, ahead, hsplit, hstart,
    hslice (atCount 15) .left (by decide +kernel) htarget, hsuffix⟩

/-- A cursor overflows its stack on a deep tree, and refuses a target behind it. -/
theorem seek_slice_panics :
    (∃ t : SumTree (MapEntry Nat Unit) (MapKey Nat), Reachable t ∧
      MonotoneTarget (fun _ : Unit => .eq) t.toList ∧
      ∃ e, (Cursor.new t : Cursor _ _ Unit).seek (fun _ => .eq) .left = .error e) ∧
    ∃ c : Cursor (MapEntry Nat Unit) (MapKey Nat) Unit, Positioned oneEntry c ∧
      MonotoneTarget (fun _ : Unit => .lt) oneEntry.toList ∧
      c.slice (fun _ => .lt) .left = .error .cannotSeekBackward := by
  constructor
  · obtain ⟨t, reach, hdeep⟩ := exists_deep (⟨3, ()⟩ : MapEntry Nat Unit)
    exact ⟨t, reach, fun _ _ _ _ => ⟨id, id⟩,
      Cursor.seek_deep _ .left reach.wellFormed hdeep rfl⟩
  · have hseek : (Cursor.new oneEntry : Cursor _ _ Unit).seek (fun _ => .eq) .right =
        .ok (_, _) := rfl
    exact ⟨_, .seek rfl hseek, fun _ _ _ _ => ⟨id, id⟩, rfl⟩

end Gpui
