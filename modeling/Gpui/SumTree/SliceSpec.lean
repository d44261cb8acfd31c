import Gpui.SumTree.SeekSpec

/-! # SumTree: slices and summaries

    The three aggregates of a seek: nothing, the tree of the items passed, and
    their measure. -/

set_option linter.unusedSectionVars false

namespace Gpui

open Exec (Returns Ensures Next loop)

variable {T S D O : Type} [Summary S] [Item T S] [Dimension D S]

/-! ## The aggregates -/

theorem aggregates_unit (height : Nat) :
    Aggregates (T := T) (S := S) (A := Unit) (fun _ _ _ => True) (fun _ _ _ _ => True)
      (fun _ _ => False) height :=
  ⟨fun _ => trivial, fun _ _ _ => trivial, fun _ _ => trivial, fun _ _ _ => trivial⟩

/-- Any measure can be taken of what a seek passes. -/
theorem aggregates_summary_any [Dimension O S] (height : Nat) :
    Aggregates (T := T) (S := S) (A := SummarySeekAggregate O) (fun _ _ _ => True)
      (fun _ _ _ _ => True) (fun _ _ => False) height :=
  ⟨fun _ => trivial, fun _ _ _ => trivial, fun _ _ => trivial, fun _ _ _ => trivial⟩

section Lawful

variable [LawfulSummary S]

/-- An additive measure of what a seek passes is the measure of the items. -/
theorem aggregates_summary [Dimension O S] [LawfulDimension O S] (height : Nat) :
    Aggregates (T := T) (S := S) (A := SummarySeekAggregate O)
      (fun _ xs a => a.summary = measure O xs) (fun _ xs ys a => a.summary = measure O (xs ++ ys))
      (fun _ _ => False) height where
  beginLeaf := by
    intro n xs a ha
    rw [List.append_nil]
    exact ha
  pushItem := by
    rintro n xs ys a x ha -
    show Dimension.addSummary a.summary (Item.summary x) = _
    rw [ha, ← List.append_assoc, measure_append (xs ++ ys) [x]]
    rfl
  endLeaf := fun ha _ => ha
  pushTree := by
    rintro n xs a h t ha wf -
    show Dimension.addSummary a.summary t.summary = _
    rw [ha, measure_append, wf.summary_eq, addSummary_itemsSum _ wf.toList_ne_nil]

/-- The tree of a slice holds the items passed so far.  Its bulk grows by one
    with every tree appended, unless a taller tree takes over. -/
structure Sliced (height n : Nat) (xs : List T) (tree : SumTree T S) : Prop where
  wf : tree.WellFormed
  items : tree.toList = xs
  bulk : height ≤ 15 → tree.bulk ≤ 178 + n

/-- How appending to a slice can fail. -/
def SliceError (height n : Nat) (e : Panic) : Prop :=
  e = .addOverflow ∧ (height ≤ 15 → Cursor.collectBound 15 ≤ n)

theorem Sliced.append {height n : Nat} {xs : List T} {tree other : SumTree T S}
    (sliced : Sliced height n xs tree) (wf : other.WellFormed) (hle : other.height ≤ height) :
    Ensures (Sliced height (n + 1) (xs ++ other.toList)) (SliceError height n)
      (tree.append other) := by
  refine (SumTree.append_spec sliced.wf wf).imp ?_ ?_
  · intro r appended
    refine ⟨appended.wf, by rw [appended.items, sliced.items], fun hh => ?_⟩
    have hb := sliced.bulk hh
    have hr := appended.bulk
    simp only [nodeCapacity, treeBase] at hr
    omega
  · rintro e ⟨rfl, he⟩
    refine ⟨rfl, fun hh => ?_⟩
    have hb := sliced.bulk hh
    simp only [SumTree.bulk, nodeCapacity, treeBase] at hb
    simp only [Cursor.collectBound]
    omega

/-- The leaf that a slice gathers items in. -/
structure SlicedLeaf (height n : Nat) (xs ys : List T) (a : SliceSeekAggregate T S) : Prop where
  tree : Sliced height n xs a.tree
  leafItems : a.leafItems = ys
  leafItemSummaries : a.leafItemSummaries = ys.map Item.summary
  leafSummary : a.leafSummary = itemsSum ys

/-- A slice starts out empty. -/
theorem SlicedLeaf.new {height : Nat} :
    SlicedLeaf (T := T) (S := S) height 0 [] [] ⟨.new, [], [], Summary.zero⟩ :=
  ⟨⟨.inl rfl, by simp [SumTree.new],
    by simp [SumTree.bulk, SumTree.new, SumTree.height, SumTree.rootSize]⟩, rfl, rfl, rfl⟩

theorem wellFormed_leaf {its : List T} (hle : its.length ≤ nodeCapacity) :
    (SumTree.leaf (itemsSum its) its (its.map Item.summary)).WellFormed := by
  by_cases hne : its = []
  · subst hne
    exact .inl rfl
  · exact (SumTree.Wf.leaf hne hle).wellFormed (by omega)

theorem aggregates_slice {height : Nat} (hheight : height ≤ 255) :
    Aggregates (A := SliceSeekAggregate T S) (fun n xs a => SlicedLeaf height n xs [] a)
      (SlicedLeaf height) (SliceError height) height where
  beginLeaf := id
  pushItem := by
    intro n xs ys a x leaf hlt
    have hsum : Summary.addSummary a.leafSummary (Item.summary x) = itemsSum (ys ++ [x]) := by
      rw [leaf.leafSummary]
      simp [itemsSum, sum]
    simp only [SeekAggregate.pushItem, leaf.leafItems, leaf.leafItemSummaries, hsum]
    rw [ArrayVec.push_of_lt hlt, ArrayVec.push_of_lt (by simpa using hlt)]
    exact ⟨leaf.tree, rfl, by simp, rfl⟩
  endLeaf := by
    intro n xs ys a leaf hle
    simp only [SeekAggregate.endLeaf, leaf.leafItems, leaf.leafItemSummaries, leaf.leafSummary]
    exact (leaf.tree.append (wellFormed_leaf hle) (Nat.zero_le _)).bind
      fun tree sliced => ⟨sliced, rfl, rfl, rfl⟩
  pushTree := by
    intro n xs a h t leaf wf hle
    exact (leaf.tree.append (wf.wellFormed (by omega)) (by rwa [wf.height_eq])).bind
      fun tree sliced => ⟨sliced, leaf.leafItems, leaf.leafItemSummaries, leaf.leafSummary⟩

end Lawful

/-! ## Seeks, slices, summaries -/

/-- How a cursor on a tree of `height` levels can fail to move to a target;
    `behind` says that the target lies before the cursor. -/
def SeekFails (P : List T → D → Prop) (height : Nat) (behind : Prop) (e : Panic) : Prop :=
  (e = .cannotSeekBackward ∧ behind) ∨ (e = .stackFull ∧ 15 < height) ∨
    (e = .addOverflow ∧ (Determines P → 15 < height))

variable {behind : Prop} {e : Panic}

/-- A cursor in reach of its target cannot fail on a tree of at most 15 levels. -/
theorem SeekFails.elim {P : List T → D → Prop} {height : Nat}
    (fails : SeekFails P height behind e) (hle : height ≤ 15) (det : Determines P)
    (hback : ¬ behind) : False := by
  rcases fails with ⟨-, h⟩ | ⟨-, h⟩ | ⟨-, h⟩
  · exact hback h
  · omega
  · have := h det
    omega

namespace Cursor

section

variable {P : List T → D → Prop} {root : SumTree T S} {before ahead : List T}
  {c : Cursor T S D} {target : SeekTarget D} {bias : Bias}

theorem SeekError.fails_of_false {height : Nat}
    (h : (e = .cannotSeekBackward ∧ behind) ∨ SeekError P (fun _ _ => False) height e) :
    SeekFails P height behind e := by
  rcases h with h | h | ⟨k, hk, -⟩
  · exact .inl h
  · exact .inr (.inl h)
  · exact hk.elim

theorem SeekError.fails_of_slice {height : Nat}
    (h : (e = .cannotSeekBackward ∧ behind) ∨ SeekError P (SliceError height) height e) :
    SeekFails P height behind e := by
  rcases h with h | h | ⟨k, ⟨he, hk⟩, hdet⟩
  · exact .inl h
  · exact .inr (.inl h)
  · refine .inr (.inr ⟨he, fun det => ?_⟩)
    by_contra hle
    have hlt := hdet det
    have hge := hk (by omega)
    simp only [collectBound] at hlt hge
    omega

/-- A target behind the cursor is refused. -/
theorem seekForward_of_lt (h : target c.position = .lt) :
    c.seekForward target bias = .error .cannotSeekBackward := by
  simp only [seekForward, seekInternal, if_pos h]
  rfl

theorem seekForward_spec (tr : Tracks P) (hroot : root.WellFormed)
    (standing : Standing P root before ahead c) :
    Ensures (fun r => ∃ mid after, Stopped P target bias root before ahead mid after r.1 ∧
        r.2 = metTarget target bias r.1 after)
      (SeekFails P root.height (target c.position = .lt)) (c.seekForward target bias) := by
  refine ((seekInternal_spec tr hroot (aggregates_unit _) standing trivial).imp
    (fun _ h => h) (fun _ => SeekError.fails_of_false)).bind ?_
  rintro ⟨c', _, found⟩ ⟨n, mid, after, landed⟩
  exact ⟨mid, after, landed.stopped, landed.found⟩

/-- **`seek`** starts over from the first item. -/
theorem seek_spec (tr : Tracks P) (hroot : root.WellFormed) (htree : c.tree = root) :
    Ensures (fun r => ∃ mid after, Stopped P target bias root [] root.toList mid after r.1 ∧
        r.2 = metTarget target bias r.1 after)
      (SeekFails P root.height (target (Dimension.zero S) = .lt)) (c.seek target bias) := by
  subst htree
  exact seekForward_spec tr hroot (.inl ⟨rfl, rfl, rfl⟩)

theorem summary_spec_any [Dimension O S] (tr : Tracks P) (hroot : root.WellFormed)
    (standing : Standing P root before ahead c) :
    Ensures (fun r => ∃ mid after, Stopped P target bias root before ahead mid after r.1)
      (SeekFails P root.height (target c.position = .lt)) (c.summary O target bias) := by
  refine ((seekInternal_spec tr hroot (aggregates_summary_any _) standing trivial).imp
    (fun _ h => h) (fun _ => SeekError.fails_of_false)).bind ?_
  rintro ⟨c', _, found⟩ ⟨n, mid, after, landed⟩
  exact ⟨mid, after, landed.stopped⟩

variable [LawfulSummary S]

/-- **`summary`** measures the items that it passes. -/
theorem summary_spec [Dimension O S] [LawfulDimension O S] (tr : Tracks P)
    (hroot : root.WellFormed) (standing : Standing P root before ahead c) :
    Ensures (fun r => ∃ mid after, Stopped P target bias root before ahead mid after r.1 ∧
        r.2 = measure O mid)
      (SeekFails P root.height (target c.position = .lt)) (c.summary O target bias) := by
  refine ((seekInternal_spec tr hroot (aggregates_summary _) standing rfl).imp
    (fun _ h => h) (fun _ => SeekError.fails_of_false)).bind ?_
  rintro ⟨c', _, found⟩ ⟨n, mid, after, landed⟩
  exact ⟨mid, after, landed.stopped, landed.collected⟩

/-- **`slice`** returns a tree of the items that it passes. -/
theorem slice_spec (tr : Tracks P) (hroot : root.WellFormed)
    (standing : Standing P root before ahead c) :
    Ensures (fun r => ∃ mid after, Stopped P target bias root before ahead mid after r.1 ∧
        r.2.WellFormed ∧ r.2.toList = mid)
      (SeekFails P root.height (target c.position = .lt)) (c.slice target bias) := by
  refine ((seekInternal_spec tr hroot (aggregates_slice hroot.height_le) standing .new).imp
    (fun _ h => h) (fun _ => SeekError.fails_of_slice)).bind ?_
  rintro ⟨c', a, found⟩ ⟨n, mid, after, landed⟩
  exact ⟨mid, after, landed.stopped, landed.collected.tree.wf, landed.collected.tree.items⟩

/-- The slice of a tree of at most 15 levels is far from the limit of `u8`. -/
theorem slice_low (tr : Tracks P) (det : Determines P) (hroot : root.WellFormed)
    (hle : root.height ≤ 15) (standing : Standing P root before ahead c)
    {r : Cursor T S D × SumTree T S} (h : c.slice target bias = .ok r) : r.2.height ≤ 56 := by
  have hspec : Ensures _ _ (c.seekInternal target bias
      (⟨.new, [], [], Summary.zero⟩ : SliceSeekAggregate T S)) :=
    seekInternal_spec tr hroot (aggregates_slice hroot.height_le) standing SlicedLeaf.new
  rw [slice] at h
  generalize hseek : c.seekInternal target bias
    (⟨.new, [], [], Summary.zero⟩ : SliceSeekAggregate T S) = sought at hspec h
  cases sought with
  | error e => cases h
  | ok landed =>
    cases h
    obtain ⟨n, mid, after, hlanded⟩ := hspec
    have hfew := hlanded.few det
    have hbulk := hlanded.collected.tree.bulk hle
    simp only [SumTree.bulk, collectBound, nodeCapacity, treeBase] at hbulk hfew
    show landed.2.1.tree.height ≤ 56
    omega

/-- **`suffix`** returns a tree of all the items ahead. -/
theorem suffix_spec (tr : Tracks P) (hroot : root.WellFormed)
    (standing : Standing P root before ahead c) :
    Ensures (fun r => r.1.At P root root.toList [] ∧ r.2.WellFormed ∧ r.2.toList = ahead)
      (SeekFails P root.height False) c.suffix := by
  refine (slice_spec tr hroot standing).imp ?_ (fun e he => ?_)
  · rintro r ⟨mid, after, stopped, hwf, hitems⟩
    obtain ⟨hsplit, pos, -, hnext⟩ := stopped
    cases after with
    | nil =>
      have hroot := pos.items
      rw [List.append_nil] at hroot hsplit
      exact ⟨hroot ▸ pos, hwf, by rw [hitems, hsplit]⟩
    | cons x after =>
      have := hnext x rfl
      simp [Gpui.reached, endTarget] at this
  · simpa [SeekFails, endTarget] using he

end

/-! ## Additive dimensions

    On a tree of at most 15 levels nothing but a target behind the cursor can
    stop it. -/

section

variable [LawfulSummary S] [LawfulDimension D S] {root : SumTree T S} {before ahead : List T}
  {c : Cursor T S D}

section

variable (target : SeekTarget D) (bias : Bias) (hroot : root.WellFormed) (hle : root.height ≤ 15)
include target bias hroot hle

theorem seek_returns (htree : c.tree = root) (hpos : target (Dimension.zero S) ≠ .lt) :
    ∃ c' found mid after, c.seek target bias = .ok (c', found) ∧
      Stopped Measured target bias root [] root.toList mid after c' ∧
      found = metTarget target bias c' after := by
  obtain ⟨⟨c', found⟩, hc, mid, after, hstopped, hfound⟩ :=
    ((seek_spec Tracks.measured hroot htree).imp (fun _ h => h)
      (fun e he => he.elim hle determines_measured hpos)).returns
  exact ⟨c', found, mid, after, hc, hstopped, hfound⟩

theorem seekForward_returns (standing : Standing Measured root before ahead c)
    (hpos : target c.position ≠ .lt) :
    ∃ c' found mid after, c.seekForward target bias = .ok (c', found) ∧
      Stopped Measured target bias root before ahead mid after c' := by
  obtain ⟨⟨c', found⟩, hc, mid, after, hstopped, -⟩ :=
    ((seekForward_spec Tracks.measured hroot standing).imp (fun _ h => h)
      (fun e he => he.elim hle determines_measured hpos)).returns
  exact ⟨c', found, mid, after, hc, hstopped⟩

theorem slice_returns (standing : Standing Measured root before ahead c)
    (hpos : target c.position ≠ .lt) :
    ∃ c' r mid after, c.slice target bias = .ok (c', r) ∧
      Stopped Measured target bias root before ahead mid after c' ∧ r.WellFormed ∧
      r.toList = mid := by
  obtain ⟨⟨c', r⟩, hc, mid, after, hstopped, hwf, hitems⟩ :=
    ((slice_spec Tracks.measured hroot standing).imp (fun _ h => h)
      (fun e he => he.elim hle determines_measured hpos)).returns
  exact ⟨c', r, mid, after, hc, hstopped, hwf, hitems⟩

end

theorem suffix_returns (hroot : root.WellFormed) (hle : root.height ≤ 15)
    (standing : Standing Measured root before ahead c) :
    ∃ c' r, c.suffix = .ok (c', r) ∧ c'.At Measured root root.toList [] ∧ r.WellFormed ∧
      r.toList = ahead := by
  obtain ⟨⟨c', r⟩, hc, hpos, hwf, hitems⟩ :=
    ((suffix_spec Tracks.measured hroot standing).imp (fun _ h => h)
      (fun e he => he.elim hle determines_measured id)).returns
  exact ⟨c', r, hc, hpos, hwf, hitems⟩

theorem summary_returns [Dimension O S] [LawfulDimension O S] (target : SeekTarget D)
    (bias : Bias) (hroot : root.WellFormed) (hle : root.height ≤ 15)
    (standing : Standing Measured root before ahead c) (hpos : target c.position ≠ .lt) :
    ∃ c' o mid after, c.summary O target bias = .ok (c', o) ∧
      Stopped Measured target bias root before ahead mid after c' ∧ o = measure O mid := by
  obtain ⟨⟨c', o⟩, hc, mid, after, hstopped, ho⟩ :=
    ((summary_spec (O := O) Tracks.measured hroot standing).imp (fun _ h => h)
      (fun e he => he.elim hle determines_measured hpos)).returns
  exact ⟨c', o, mid, after, hc, hstopped, ho⟩

end

end Cursor

end Gpui
