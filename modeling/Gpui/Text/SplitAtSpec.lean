import Gpui.Text.CutSpec
import Gpui.Text.ShapeTextSpec
import Gpui.Text.SplitAt

/-! # Splitting a shaped line is exact

    Both halves are what is left and right of the index, and splitting a half again is
    splitting the line once: a glyph is moved by the sum of the offsets, and a decoration is
    cut at both ends.

    * `keep` is what happens to the runs of a line when their glyphs are filtered.
    * `splitAt_eq` is the two halves of a valid line, without panics.
    * **`splitAt_exact`** is what holds of them. -/

namespace Gpui

open List

open Exec (ok_bind)

/-! ### Section 1: Characters of a text -/

section Text

open LineWrapper (utf8Len_nil utf8Len_cons utf8Len_append)

theorem charAt_append_right (front back : List Char) (n : Nat) :
    charAt (front ++ back) (utf8Len front + n) = charAt back n := by
  induction front with
  | nil => rw [utf8Len_nil, Nat.zero_add, nil_append]
  | cons c front ih =>
    obtain ⟨k, hk⟩ : ∃ k, c.utf8Size + utf8Len front + n = k + 1 :=
      Nat.exists_eq_succ_of_ne_zero (by have := c.utf8Size_pos; omega)
    have hrest : k + 1 - c.utf8Size = utf8Len front + n := by omega
    rw [utf8Len_cons, hk, cons_append, charAt, if_neg (by omega), hrest, ih]

theorem charAt_append_left (front back : List Char) {n : Nat} (hn : n < utf8Len front) :
    charAt (front ++ back) n = charAt front n := by
  induction front generalizing n with
  | nil => cases hn
  | cons c front ih =>
    rw [utf8Len_cons] at hn
    cases n with
    | zero => rfl
    | succ n =>
      rw [cons_append, charAt, charAt]
      split
      · rfl
      · exact ih (by omega)

theorem eq_nil_of_utf8Len {text : List Char} (h : utf8Len text = 0) : text = [] := by
  cases text with
  | nil => rfl
  | cons c text =>
    have hpos := c.utf8Size_pos
    rw [utf8Len_cons] at h
    omega

/-- A text can be cut where it has a character. -/
theorem charAt_split {text : List Char} {n : Nat} {c : Char} (h : charAt text n = .ok c) :
    ∃ front back, text = front ++ c :: back ∧ utf8Len front = n := by
  induction text generalizing n with
  | nil => cases n <;> cases h
  | cons d text ih =>
    cases n with
    | zero =>
      cases h
      exact ⟨[], text, rfl, rfl⟩
    | succ n =>
      rw [charAt] at h
      split at h
      · cases h
      · obtain ⟨front, back, rfl, hfront⟩ := ih h
        refine ⟨d :: front, back, rfl, ?_⟩
        rw [utf8Len_cons, hfront]
        omega

end Text

/-! ### Section 2: Glyphs -/

section Glyphs

variable {X : Type}

/-- The glyphs of a line. -/
def LineLayout.shapedGlyphs (layout : LineLayout X) : List (ShapedGlyph X) :=
  layout.runs.flatMap ShapedRun.glyphs

/-- The glyphs of a line with their fonts. -/
def LineLayout.fontGlyphs (layout : LineLayout X) : List (Nat × ShapedGlyph X) :=
  layout.runs.flatMap (fun run => run.glyphs.map (fun glyph => (run.fontId, glyph)))

/-- The runs with other glyphs; those without glyphs are left out. -/
def keep (f : List (ShapedGlyph X) → List (ShapedGlyph X)) (runs : List (ShapedRun X)) :
    List (ShapedRun X) :=
  (runs.map (fun run => { run with glyphs := f run.glyphs })).filter
    (fun run => !run.glyphs.isEmpty)

theorem keep_cons (f : List (ShapedGlyph X) → List (ShapedGlyph X)) (run : ShapedRun X)
    (runs : List (ShapedRun X)) :
    keep f (run :: runs) =
      (if f run.glyphs = [] then [] else [{ run with glyphs := f run.glyphs }]) ++ keep f runs := by
  unfold keep
  rw [map_cons, filter_cons]
  cases f run.glyphs <;> rfl

theorem keep_keep {f g : List (ShapedGlyph X) → List (ShapedGlyph X)} (hg : g [] = [])
    (runs : List (ShapedRun X)) : keep g (keep f runs) = keep
    (fun glyphs => g (f glyphs)) runs := by
  induction runs with
  | nil => rfl
  | cons run rest ih =>
    rw [keep_cons f, keep_cons (fun glyphs => g (f glyphs))]
    by_cases hnil : f run.glyphs = []
    · rw [if_pos hnil, hnil, if_pos hg]
      exact ih
    · rw [if_neg hnil, singleton_append, keep_cons, ih]

theorem keep_flatMap (f : List (ShapedGlyph X) → List (ShapedGlyph X)) (runs : List (ShapedRun X)) :
    (keep f runs).flatMap (fun run => run.glyphs.map (fun glyph => (run.fontId, glyph))) =
      runs.flatMap (fun run => (f run.glyphs).map (fun glyph => (run.fontId, glyph))) := by
  induction runs with
  | nil => rfl
  | cons run rest ih =>
    rw [keep_cons, flatMap_append, ih, flatMap_cons]
    congr 1
    split
    · next hnil => rw [hnil]; rfl
    · rw [flatMap_singleton]

theorem keep_shapedGlyphs (f : List (ShapedGlyph X) → List (ShapedGlyph X))
    (runs : List (ShapedRun X)) :
    (keep f runs).flatMap ShapedRun.glyphs = runs.flatMap (fun run => f run.glyphs) := by
  have hfonts := congrArg (List.map Prod.snd) (keep_flatMap f runs)
  rw [map_flatMap, map_flatMap] at hfonts
  simpa only [map_map, Function.comp_def, map_id'] using hfonts

/-- A list in which a bound is passed once. -/
theorem filter_append_filter {α : Type} {index : α → Nat} {xs : List α}
    (h : xs.Pairwise (fun a b => index a < index b)) (i : Nat) :
    xs.filter (fun x => index x < i) ++ xs.filter (fun x => i ≤ index x) = xs := by
  induction xs with
  | nil => rfl
  | cons x rest ih =>
    by_cases hx : index x < i
    · rw [filter_cons_of_pos (by simpa using hx), filter_cons_of_neg (by simpa using hx),
        cons_append, ih h.of_cons]
    · -- the bound is passed at the first element
      have hrest : ∀ y ∈ rest, ¬ index y < i := by
        intro y hy
        have hlt := rel_of_pairwise_cons h hy
        omega
      rw [filter_cons_of_neg (by simpa using hx), filter_cons_of_pos (by simpa using hx)]
      rw [filter_eq_nil_iff.mpr (by simpa using hrest), nil_append,
        filter_eq_self.mpr (by simpa using hrest)]

theorem takeWhile_eq_filter {α : Type} {index : α → Nat} {xs : List α}
    (h : xs.Pairwise (fun a b => index a < index b)) (i : Nat) :
    xs.takeWhile (fun x => index x < i) = xs.filter (fun x => index x < i) := by
  induction xs with
  | nil => rfl
  | cons x rest ih =>
    by_cases hx : index x < i
    · rw [takeWhile_cons_of_pos (by simpa using hx),
        filter_cons_of_pos (by simpa using hx), ih h.of_cons]
    · rw [takeWhile_cons_of_neg (by simpa using hx)]
      refine (filter_eq_nil_iff.mpr ?_).symm
      intro y hy
      rcases mem_cons.mp hy with rfl | hy
      · simpa using hx
      · have hlt := rel_of_pairwise_cons h hy
        simp only [decide_eq_true_eq]
        omega

variable [Field X]

/-- A glyph of the second line: an index and an offset are taken from it. -/
def shift (i : Nat) (x : X) (glyph : ShapedGlyph X) : ShapedGlyph X :=
  { glyph with x := glyph.x - x, index := glyph.index - i }

/-- The other way round. -/
def unshift (i : Nat) (x : X) (glyph : ShapedGlyph X) : ShapedGlyph X :=
  { glyph with x := glyph.x + x, index := glyph.index + i }

def leftGlyphs (i : Nat) (glyphs : List (ShapedGlyph X)) : List (ShapedGlyph X) :=
  glyphs.filter (fun glyph => glyph.index < i)

def rightGlyphs (i : Nat) (x : X) (glyphs : List (ShapedGlyph X)) : List (ShapedGlyph X) :=
  (glyphs.filter (fun glyph => i ≤ glyph.index)).map (shift i x)

theorem unshift_shift {i : Nat} {x : X} {glyph : ShapedGlyph X} (h : i ≤ glyph.index) :
    unshift i x (shift i x glyph) = glyph := by
  unfold unshift shift
  rw [sub_add_cancel, Nat.sub_add_cancel h]

/-- A glyph that is moved twice is moved once. -/
theorem shift_shift (i j : Nat) (x y : X) (glyph : ShapedGlyph X) :
    shift j y (shift i x glyph) = shift (i + j) (x + y) glyph := by
  unfold shift
  rw [sub_sub, Nat.sub_sub]

omit [Field X] in
theorem leftGlyphs_left (i j : Nat) (glyphs : List (ShapedGlyph X)) :
    leftGlyphs i (leftGlyphs (i + j) glyphs) = leftGlyphs i glyphs := by
  unfold leftGlyphs
  rw [filter_filter]
  apply filter_congr
  intro glyph _
  rw [← Bool.decide_and, decide_eq_decide]
  omega

theorem rightGlyphs_right (i j : Nat) (x y : X) (glyphs : List (ShapedGlyph X)) :
    rightGlyphs j y (rightGlyphs i x glyphs) = rightGlyphs (i + j) (x + y) glyphs := by
  unfold rightGlyphs
  rw [filter_map, filter_filter, map_map]
  congr 1
  · funext glyph
    exact shift_shift i j x y glyph
  · apply filter_congr
    intro glyph _
    unfold shift
    dsimp only [Function.comp]
    rw [← Bool.decide_and, decide_eq_decide]
    omega

theorem rightGlyphs_left (i j : Nat) (x : X) (glyphs : List (ShapedGlyph X)) :
    rightGlyphs i x (leftGlyphs (i + j) glyphs) = leftGlyphs j (rightGlyphs i x glyphs) := by
  unfold rightGlyphs leftGlyphs
  rw [filter_map, filter_filter, filter_filter]
  congr 1
  apply filter_congr
  intro glyph _
  unfold shift
  dsimp only [Function.comp]
  rw [← Bool.decide_and, ← Bool.decide_and, decide_eq_decide]
  omega

/-! ### Section 3: Positions -/

/-- The position of an index in a list of glyphs. -/
def xIn (width : X) (k : Nat) (glyphs : List (ShapedGlyph X)) : X :=
  ((glyphs.find? (fun glyph => k ≤ glyph.index)).map ShapedGlyph.x).getD width

section

omit [Field X]

theorem xForIndexFrom_eq (width : X) (k : Nat) (glyphs : List (LineLayout.GlyphAt X)) :
    LineLayout.xForIndexFrom width k glyphs =
      ((glyphs.find? (fun glyph => k ≤ glyph.index)).map LineLayout.GlyphAt.x).getD width := by
  induction glyphs with
  | nil => rfl
  | cons glyph rest ih =>
    rw [LineLayout.xForIndexFrom, find?_cons]
    by_cases hle : k ≤ glyph.index
    · rw [if_pos hle, decide_eq_true hle]
      rfl
    · rw [if_neg hle, decide_eq_false hle, ih]

theorem glyphs_places (layout : LineLayout X) :
    layout.glyphs.map (fun glyph => (glyph.index, glyph.x)) =
      layout.shapedGlyphs.map (fun glyph => (glyph.index, glyph.x)) := by
  unfold LineLayout.glyphs LineLayout.shapedGlyphs
  rw [map_flatMap, map_flatMap]
  conv_rhs => rw [← zipIdx_map_fst 0 layout.runs, flatMap_map]
  congr 1
  funext p
  obtain ⟨run, runIx⟩ := p
  -- the glyphs of one run
  simp only [map_map]
  conv_rhs => rw [← zipIdx_map_fst 0 run.glyphs, map_map]
  rfl

theorem xForIndex_eq (layout : LineLayout X) (k : Nat) :
    layout.xForIndex k = xIn layout.width k layout.shapedGlyphs := by
  have hfind {G : Type} (index : G → Nat) (x : G → X) (glyphs : List G) :
      (glyphs.find? (fun glyph => k ≤ index glyph)).map x =
        ((glyphs.map (fun glyph => (index glyph, x glyph))).find? (fun p => k ≤ p.1)).map
          Prod.snd := by
    rw [find?_map, Option.map_map]
    rfl
  unfold LineLayout.xForIndex xIn
  rw [xForIndexFrom_eq, hfind LineLayout.GlyphAt.index, hfind ShapedGlyph.index, glyphs_places]

/-- To the left of an index nothing moves. -/
theorem xIn_left {glyphs : List (ShapedGlyph X)}
    (h : glyphs.Pairwise (fun a b => a.index < b.index)) (width : X) {i k : Nat} (hk : k ≤ i) :
    xIn (xIn width i glyphs) k (leftGlyphs i glyphs) = xIn width k glyphs := by
  unfold xIn leftGlyphs
  induction glyphs with
  | nil => rfl
  | cons glyph rest ih =>
    by_cases hlt : glyph.index < i
    · rw [filter_cons_of_pos (by simpa using hlt), find?_cons, find?_cons,
        find?_cons, decide_eq_false (Nat.not_le.mpr hlt)]
      split
      · rfl
      · exact ih h.of_cons
    · -- the glyphs from here on are right of the index
      have hnone : (glyph :: rest).filter (fun glyph => glyph.index < i) = [] := by
        rw [filter_eq_nil_iff]
        intro other hother
        rw [decide_eq_true_eq]
        rcases mem_cons.mp hother with rfl | hother
        · exact hlt
        · have := rel_of_pairwise_cons h hother
          omega
      rw [hnone, find?_cons, find?_cons, decide_eq_true (Nat.not_lt.mp hlt),
        decide_eq_true (hk.trans (Nat.not_lt.mp hlt))]
      rfl

end

/-- To the right of an index everything moves by its position. -/
theorem xIn_right (glyphs : List (ShapedGlyph X)) (width x : X) (i k : Nat) :
    xIn (width - x) k (rightGlyphs i x glyphs) = xIn width (i + k) glyphs - x := by
  unfold xIn rightGlyphs
  rw [find?_map, find?_filter]
  have hsame : (fun glyph : ShapedGlyph X => decide (decide (i ≤ glyph.index) = true ∧
      ((fun glyph => decide (k ≤ glyph.index)) ∘ shift i x) glyph = true)) =
      fun glyph => decide (i + k ≤ glyph.index) := by
    funext glyph
    unfold shift
    dsimp only [Function.comp]
    rw [decide_eq_decide, decide_eq_true_eq, decide_eq_true_eq]
    omega
  rw [hsame]
  cases glyphs.find? (fun glyph => decide (i + k ≤ glyph.index)) <;> rfl

end Glyphs

namespace ShapedLine

open LineWrapper (sliceTo_append sliceFrom_append utf8Len_append)
open WindowTextSystem (addU32 subUsize)

variable {X C : Type}

/-! ### Section 4: Decorations -/

def setLen (decoration : DecorationRun X C) (len : Nat) : DecorationRun X C :=
  { decoration with len }

theorem resizable :
    RunLength.Resizable DecorationRun.len DecorationRun.toDecoration (setLen (X := X) (C := C)) where
  len_set := fun _ _ => rfl
  value_set := fun _ _ => rfl
  set_len := fun _ => rfl
  set_set := fun _ _ _ => rfl

def leftDecorations (i : Nat) (runs : List (DecorationRun X C)) : List (DecorationRun X C) :=
  RunLength.take DecorationRun.len setLen i runs

def rightDecorations (i : Nat) (runs : List (DecorationRun X C)) : List (DecorationRun X C) :=
  RunLength.drop DecorationRun.len setLen i runs

/-- Behind the split point the decorations go to the second line. -/
theorem splitDecorations_behind {splitPoint : Nat} (offset : Nat) (runs : List (DecorationRun X C))
    (hlt : splitPoint ≤ offset) (hpos : ∀ run ∈ runs.head?, splitPoint < offset + run.len)
    (hsum : offset + (runs.map DecorationRun.len).sum < 2 ^ 32) :
    splitDecorations splitPoint offset runs = .ok ([], runs) := by
  induction runs generalizing offset with
  | nil => rfl
  | cons run rest ih =>
    rw [map_cons, sum_cons] at hsum
    have hend := hpos run rfl
    have hadd : addU32 offset run.len = .ok (offset + run.len) := if_pos (by omega)
    have hrest := ih (offset + run.len) hend.le
      (fun next hnext => Nat.lt_add_right _ hend) (by omega)
    rw [splitDecorations, hadd, ok_bind, hrest, ok_bind]
    dsimp only
    rw [if_neg (by omega), if_pos hlt]

/-- The loop cuts the decorations at the split point. -/
theorem splitDecorations_eq (splitPoint offset : Nat) (runs : List (DecorationRun X C))
    (hle : offset ≤ splitPoint) (hsum : offset + (runs.map DecorationRun.len).sum < 2 ^ 32) :
    splitDecorations splitPoint offset runs =
      .ok (leftDecorations (splitPoint - offset) runs,
        rightDecorations (splitPoint - offset) runs) := by
  unfold leftDecorations rightDecorations
  induction runs generalizing offset with
  | nil => rfl
  | cons run rest ih =>
    rw [map_cons, sum_cons] at hsum
    have hadd : addU32 offset run.len = .ok (offset + run.len) := if_pos (by omega)
    rw [splitDecorations, hadd, ok_bind, RunLength.take, RunLength.drop]
    by_cases hend : offset + run.len ≤ splitPoint
    · have hrest := ih (offset + run.len) hend (by omega)
      have hsub : splitPoint - (offset + run.len) = splitPoint - offset - run.len := by omega
      rw [hrest, ok_bind, hsub]
      dsimp only
      rw [if_pos hend, if_pos (by omega), if_pos (by omega)]
    · have hbehind : splitDecorations splitPoint (offset + run.len) rest = .ok ([], rest) :=
        splitDecorations_behind _ rest (by omega) (fun next _ => by omega) (by omega)
      have hshort : ¬ run.len ≤ splitPoint - offset := by omega
      rw [hbehind, ok_bind, if_neg hshort, if_neg hshort]
      dsimp only
      rw [if_neg hend]
      by_cases hoffset : splitPoint ≤ offset
      · -- the boundary is the start of the run
        have hzero : splitPoint - offset = 0 := by omega
        rw [if_pos hoffset, hzero, if_neg (Nat.lt_irrefl 0)]
        rfl
      · have hsub : offset + run.len - splitPoint = run.len - (splitPoint - offset) := by omega
        rw [if_neg hoffset, if_pos (by omega), hsub]
        rfl

/-! ### Section 5: The halves of a line -/

variable [Field X]

/-- The loop over the runs filters their glyphs. -/
theorem splitRuns_eq {i : Nat} {x : X} {runs : List (ShapedRun X)}
    (h : (runs.flatMap ShapedRun.glyphs).Pairwise (fun a b => a.index < b.index)) :
    splitRuns i x runs = .ok (keep (leftGlyphs i) runs, keep (rightGlyphs i x) runs) := by
  induction runs with
  | nil => rfl
  | cons run rest ih =>
    rw [flatMap_cons, pairwise_append] at h
    obtain ⟨hrun, hrest, _⟩ := h
    have hpos : splitPos i run.glyphs = (leftGlyphs i run.glyphs).length := by
      unfold splitPos leftGlyphs
      rw [takeWhile_eq_filter hrun]
    have happend : leftGlyphs i run.glyphs ++ run.glyphs.filter (fun glyph => i ≤ glyph.index) =
        run.glyphs := filter_append_filter hrun i
    have htake : run.glyphs.take (splitPos i run.glyphs) = leftGlyphs i run.glyphs := by
      have htaken := congrArg (List.take (leftGlyphs i run.glyphs).length) happend
      rw [take_left] at htaken
      rw [hpos, ← htaken]
    have hdrop : run.glyphs.drop (splitPos i run.glyphs) =
        run.glyphs.filter (fun glyph => i ≤ glyph.index) := by
      have hdropped := congrArg (List.drop (leftGlyphs i run.glyphs).length) happend
      rw [drop_left] at hdropped
      rw [hpos, ← hdropped]
    -- no index of the second line is before the split point
    have hmove : (run.glyphs.drop (splitPos i run.glyphs)).mapM (moveGlyph i x) =
        .ok (rightGlyphs i x run.glyphs) := by
      rw [hdrop]
      apply Exec.mapM_eq_ok
      intro glyph hglyph
      have hle : i ≤ glyph.index := by simpa using of_mem_filter hglyph
      unfold moveGlyph subUsize
      rw [if_pos hle]
      rfl
    have hlen : run.glyphs.length =
        (leftGlyphs i run.glyphs).length + (rightGlyphs i x run.glyphs).length := by
      conv_lhs => rw [← happend]
      rw [length_append]
      unfold rightGlyphs
      rw [length_map]
    rw [splitRuns, hmove, ih hrest, htake, hpos, hlen]
    simp only [ok_bind, keep_cons, length_pos_iff, Nat.lt_add_right_iff_pos, ite_not]

/-- A line whose glyphs stand in the order of their indices, which are places in its text,
    and whose decorations cover it. -/
structure Valid (line : ShapedLine X C) : Prop where
  indices : line.layout.shapedGlyphs.Pairwise (fun a b => a.index < b.index)
  glyphs : ∀ glyph ∈ line.layout.shapedGlyphs, ∃ ch, charAt line.text glyph.index = .ok ch
  len : utf8Len line.text = line.layout.len
  decorations : (line.decorationRuns.map DecorationRun.len).sum = line.layout.len

/-- The start, a glyph or the end. -/
def SplitPoint (line : ShapedLine X C) (i : Nat) : Prop :=
  i = 0 ∨ (∃ glyph ∈ line.layout.shapedGlyphs, glyph.index = i) ∨ i = line.layout.len

/-- The first line, with its text. -/
def leftHalf (line : ShapedLine X C) (i : Nat) (front : List Char) : ShapedLine X C where
  layout := { line.layout with
    width := line.layout.xForIndex i
    runs := keep (leftGlyphs i) line.layout.runs
    len := i }
  text := front
  decorationRuns := leftDecorations i line.decorationRuns

/-- The second line, with its text. -/
def rightHalf (line : ShapedLine X C) (i : Nat) (back : List Char) : ShapedLine X C where
  layout := { line.layout with
    width := line.layout.width - line.layout.xForIndex i
    runs := keep (rightGlyphs i (line.layout.xForIndex i)) line.layout.runs
    len := line.layout.len - i }
  text := back
  decorationRuns := rightDecorations i line.decorationRuns

variable {line : ShapedLine X C} {i : Nat} {front back : List Char}

omit [Field X] in
/-- The text can be cut at a split point. -/
theorem Valid.cut (h : line.Valid) (hi : line.SplitPoint i) :
    ∃ front back, line.text = front ++ back ∧ utf8Len front = i := by
  rcases hi with rfl | ⟨glyph, hglyph, rfl⟩ | rfl
  · exact ⟨[], line.text, rfl, rfl⟩
  · obtain ⟨ch, hch⟩ := h.glyphs glyph hglyph
    obtain ⟨front, back, htext, hfront⟩ := charAt_split hch
    exact ⟨front, ch :: back, htext, hfront⟩
  · exact ⟨line.text, [], (append_nil _).symm, h.len⟩

omit [Field X] in
theorem Valid.cut_le (h : line.Valid) (htext : line.text = front ++ back)
    (hfront : utf8Len front = i) : i ≤ line.layout.len := by
  rw [← h.len, htext, utf8Len_append, hfront]
  exact Nat.le_add_right _ _

/-- A valid line has two halves. -/
theorem splitAt_eq (h : line.Valid) (hlen : line.layout.len < 2 ^ 32)
    (htext : line.text = front ++ back) (hfront : utf8Len front = i) :
    line.splitAt i = .ok (line.leftHalf i front, line.rightHalf i back) := by
  have hle := h.cut_le htext hfront
  have hpoint : i % 2 ^ 32 = i := Nat.mod_eq_of_lt (by omega)
  have hdecorations := splitDecorations_eq i 0 line.decorationRuns
    (Nat.zero_le _) (by rw [h.decorations]; omega)
  have hleft : leftText line.text i = .ok front := by
    unfold leftText
    split
    · next heq =>
      -- nothing is behind the end
      have hback : utf8Len back = 0 := by
        rw [htext, utf8Len_append, hfront] at heq
        omega
      rw [htext, eq_nil_of_utf8Len hback, append_nil]
    · rw [htext, ← hfront, sliceTo_append]
  have hright : rightText line.text i = .ok back := by
    unfold rightText
    split
    · next heq =>
      rw [heq] at hfront
      rw [htext, eq_nil_of_utf8Len hfront, nil_append]
    · rw [htext, ← hfront, sliceFrom_append]
  have hsub : subUsize line.layout.len i = .ok (line.layout.len - i) := if_pos hle
  unfold splitAt
  dsimp only
  rw [splitRuns_eq h.indices, ok_bind, hpoint, hdecorations, ok_bind, hleft,
    ok_bind, hright, ok_bind, hsub]
  rfl

/-! ### Section 6: What the halves have -/

omit [Field X] in
theorem leftHalf_shapedGlyphs (line : ShapedLine X C) (i : Nat) (front : List Char) :
    (line.leftHalf i front).layout.shapedGlyphs = leftGlyphs i line.layout.shapedGlyphs := by
  have hkeep := keep_shapedGlyphs (leftGlyphs i) line.layout.runs
  refine hkeep.trans ?_
  unfold LineLayout.shapedGlyphs leftGlyphs
  rw [filter_flatMap]

theorem rightHalf_shapedGlyphs (line : ShapedLine X C) (i : Nat) (back : List Char) :
    (line.rightHalf i back).layout.shapedGlyphs =
      rightGlyphs i (line.layout.xForIndex i) line.layout.shapedGlyphs := by
  have hkeep := keep_shapedGlyphs (rightGlyphs i (line.layout.xForIndex i)) line.layout.runs
  refine hkeep.trans ?_
  unfold LineLayout.shapedGlyphs rightGlyphs
  rw [filter_flatMap, map_flatMap]

omit [Field X] in
/-- The positions in the halves are those in the line. -/
theorem leftHalf_xForIndex (h : line.Valid) (i : Nat) (front : List Char) {k : Nat} (hk : k ≤ i) :
    (line.leftHalf i front).layout.xForIndex k = line.layout.xForIndex k := by
  rw [xForIndex_eq, leftHalf_shapedGlyphs, xForIndex_eq line.layout k]
  show xIn (line.layout.xForIndex i) k _ = _
  rw [xForIndex_eq line.layout i]
  exact xIn_left h.indices line.layout.width hk

theorem rightHalf_xForIndex (line : ShapedLine X C) (i : Nat) (back : List Char) (k : Nat) :
    (line.rightHalf i back).layout.xForIndex k =
      line.layout.xForIndex (i + k) - line.layout.xForIndex i := by
  rw [xForIndex_eq, rightHalf_shapedGlyphs, xForIndex_eq line.layout (i + k)]
  exact xIn_right line.layout.shapedGlyphs line.layout.width (line.layout.xForIndex i) i k

/-- A half of a half is a part of the line. -/
theorem rightHalf_rightHalf (line : ShapedLine X C) (i j : Nat) (back rest : List Char) :
    (line.rightHalf i back).rightHalf j rest = line.rightHalf (i + j) rest := by
  have hx := rightHalf_xForIndex line i back j
  unfold rightHalf at hx ⊢
  rw [hx, keep_keep rfl, Nat.sub_sub]
  unfold rightDecorations
  rw [RunLength.drop_drop resizable]
  simp only [rightGlyphs_right, add_sub_cancel, sub_sub]

omit [Field X] in
theorem leftHalf_leftHalf (h : line.Valid) (i j : Nat) (front mid : List Char) :
    (line.leftHalf (i + j) mid).leftHalf i front = line.leftHalf i front := by
  have hx := leftHalf_xForIndex h (i + j) mid (Nat.le_add_right i j)
  unfold leftHalf at hx ⊢
  dsimp only at hx ⊢
  rw [hx, keep_keep rfl]
  unfold leftDecorations
  rw [RunLength.take_take resizable]
  simp only [leftGlyphs_left]

theorem rightHalf_leftHalf (h : line.Valid) (i j : Nat) (front back mid : List Char) :
    (line.leftHalf (i + j) front).rightHalf i mid = (line.rightHalf i back).leftHalf j mid := by
  have hleft := leftHalf_xForIndex h (i + j) front (Nat.le_add_right i j)
  have hright := rightHalf_xForIndex line i back j
  unfold leftHalf rightHalf at *
  rw [hleft, hright, keep_keep rfl, keep_keep rfl, Nat.add_sub_cancel_left]
  unfold leftDecorations rightDecorations
  rw [RunLength.drop_take resizable]
  simp only [rightGlyphs_left]

omit [Field X] in
theorem Valid.leftHalf (h : line.Valid) (htext : line.text = front ++ back)
    (hfront : utf8Len front = i) : (line.leftHalf i front).Valid where
  indices := by
    rw [leftHalf_shapedGlyphs]
    exact h.indices.filter _
  glyphs := by
    rw [leftHalf_shapedGlyphs]
    intro glyph hglyph
    have hlt : glyph.index < i := by simpa using of_mem_filter hglyph
    obtain ⟨ch, hch⟩ := h.glyphs glyph (mem_of_mem_filter hglyph)
    rw [htext, charAt_append_left front back (hfront ▸ hlt)] at hch
    exact ⟨ch, hch⟩
  len := hfront
  decorations := by
    have hbytes := congrArg List.length (RunLength.expand_take resizable i line.decorationRuns)
    have hle := h.cut_le htext hfront
    rw [RunLength.length_expand, length_take, RunLength.length_expand, h.decorations,
      Nat.min_eq_left hle] at hbytes
    exact hbytes

theorem Valid.rightHalf (h : line.Valid) (htext : line.text = front ++ back)
    (hfront : utf8Len front = i) : (line.rightHalf i back).Valid where
  indices := by
    rw [rightHalf_shapedGlyphs]
    refine pairwise_map.mpr ((h.indices.filter _).imp_of_mem ?_)
    intro a b ha _ hlt
    have hle : i ≤ a.index := by simpa using of_mem_filter ha
    exact Nat.sub_lt_sub_right hle hlt
  glyphs := by
    rw [rightHalf_shapedGlyphs]
    intro glyph hglyph
    obtain ⟨original, hmem, rfl⟩ := mem_map.mp hglyph
    have hle : i ≤ original.index := by simpa using of_mem_filter hmem
    obtain ⟨ch, hch⟩ := h.glyphs original (mem_of_mem_filter hmem)
    have hsum : utf8Len front + (original.index - i) = original.index := by omega
    rw [htext, ← hsum, charAt_append_right] at hch
    exact ⟨ch, hch⟩
  len := by
    show utf8Len back = line.layout.len - i
    rw [← h.len, htext, utf8Len_append, hfront, Nat.add_sub_cancel_left]
  decorations := by
    have hbytes := congrArg List.length (RunLength.expand_drop resizable i line.decorationRuns)
    rw [RunLength.length_expand, length_drop, RunLength.length_expand, h.decorations]
      at hbytes
    exact hbytes

/-! ### Section 7: The result -/

omit [Field X] in
theorem leftHalf_fontGlyphs (line : ShapedLine X C) (i : Nat) (front : List Char) :
    (line.leftHalf i front).layout.fontGlyphs =
      line.layout.fontGlyphs.filter (fun glyph => glyph.2.index < i) := by
  refine (keep_flatMap (leftGlyphs i) line.layout.runs).trans ?_
  unfold LineLayout.fontGlyphs leftGlyphs
  rw [filter_flatMap]
  simp only [filter_map, Function.comp_def]

/-- The glyphs of the second half, moved back. -/
theorem rightHalf_fontGlyphs (line : ShapedLine X C) (i : Nat) (back : List Char) :
    (line.rightHalf i back).layout.fontGlyphs.map (fun glyph =>
        (glyph.1, unshift i (line.layout.xForIndex i) glyph.2)) =
      line.layout.fontGlyphs.filter (fun glyph => i ≤ glyph.2.index) := by
  have hrun : ∀ run : ShapedRun X,
      ((rightGlyphs i (line.layout.xForIndex i) run.glyphs).map (fun glyph =>
          (run.fontId, glyph))).map (fun glyph =>
            (glyph.1, unshift i (line.layout.xForIndex i) glyph.2)) =
        (run.glyphs.map (fun glyph => (run.fontId, glyph))).filter (fun glyph =>
          i ≤ glyph.2.index) := by
    intro run
    unfold rightGlyphs
    rw [map_map, map_map, filter_map]
    apply map_congr_left
    intro glyph hglyph
    have hle : i ≤ glyph.index := by simpa using of_mem_filter hglyph
    exact congrArg (Prod.mk run.fontId) (unshift_shift hle)
  have hkeep := keep_flatMap (rightGlyphs i (line.layout.xForIndex i)) line.layout.runs
  refine (congrArg (List.map _) hkeep).trans ?_
  unfold LineLayout.fontGlyphs
  rw [filter_flatMap, map_flatMap]
  simp only [hrun]

/-- What two lines should be that a line was split into. -/
structure Splits (line : ShapedLine X C) (i : Nat) (left right : ShapedLine X C) : Prop where
  text : left.text ++ right.text = line.text
  glyphs : left.layout.fontGlyphs ++ right.layout.fontGlyphs.map (fun glyph =>
    (glyph.1, unshift i (line.layout.xForIndex i) glyph.2)) = line.layout.fontGlyphs
  decorations : decorations left.decorationRuns ++ decorations right.decorationRuns =
    decorations line.decorationRuns
  left_x : ∀ k ≤ i, left.layout.xForIndex k = line.layout.xForIndex k
  right_x : ∀ k, right.layout.xForIndex k =
    line.layout.xForIndex (i + k) - line.layout.xForIndex i
  left_len : left.layout.len = i
  right_len : right.layout.len = line.layout.len - i
  left_sum : (left.decorationRuns.map DecorationRun.len).sum = left.layout.len
  right_sum : (right.decorationRuns.map DecorationRun.len).sum = right.layout.len

theorem Valid.splits (h : line.Valid) (htext : line.text = front ++ back)
    (hfront : utf8Len front = i) : line.Splits i (line.leftHalf i front)
    (line.rightHalf i back) where
  text := htext.symm
  glyphs := by
    have hindices : line.layout.fontGlyphs.Pairwise (fun a b => a.2.index < b.2.index) := by
      have hsnd : line.layout.fontGlyphs.map Prod.snd = line.layout.shapedGlyphs := by
        unfold LineLayout.fontGlyphs LineLayout.shapedGlyphs
        rw [map_flatMap]
        simp only [map_map, Function.comp_def, map_id']
      have hpairs := h.indices
      rw [← hsnd, pairwise_map] at hpairs
      exact hpairs
    rw [leftHalf_fontGlyphs, rightHalf_fontGlyphs]
    exact filter_append_filter hindices i
  decorations := by
    have hleft := RunLength.expand_take resizable i line.decorationRuns
    have hright := RunLength.expand_drop resizable i line.decorationRuns
    show RunLength.expand _ _ _ ++ RunLength.expand _ _ _ = RunLength.expand _ _ _
    unfold ShapedLine.leftHalf ShapedLine.rightHalf leftDecorations rightDecorations
    rw [hleft, hright, take_append_drop]
  left_x := fun k hk => leftHalf_xForIndex h i front hk
  right_x := rightHalf_xForIndex line i back
  left_len := rfl
  right_len := rfl
  left_sum := (h.leftHalf htext hfront).decorations
  right_sum := (h.rightHalf htext hfront).decorations

/-- **Splitting a line is exact**: nothing is lost or moved, and splitting the second half is
    splitting the line further on. -/
theorem splitAt_exact (line : ShapedLine X C) (h : line.Valid) (hlen : line.layout.len < 2 ^ 32)
    (i : Nat) (hi : line.SplitPoint i) :
    ∃ left right, line.splitAt i = .ok (left, right) ∧ line.Splits i left right ∧
      ∀ j, right.SplitPoint j →
        ∃ first mid rest, line.splitAt (i + j) = .ok (first, rest) ∧
          right.splitAt j = .ok (mid, rest) ∧ first.splitAt i = .ok (left, mid) := by
  obtain ⟨front, back, htext, hfront⟩ := h.cut hi
  refine ⟨line.leftHalf i front, line.rightHalf i back, splitAt_eq h hlen htext hfront,
    h.splits htext hfront, ?_⟩
  intro j hj
  have hright := h.rightHalf htext hfront
  obtain ⟨mid, rest, hback, hmid⟩ := hright.cut hj
  have hback : back = mid ++ rest := hback
  -- the text of the line, cut at the second place
  have htext' : line.text = (front ++ mid) ++ rest := by
    rw [htext, hback, append_assoc]
  have hfront' : utf8Len (front ++ mid) = i + j := by
    rw [utf8Len_append, hfront, hmid]
  have hfirst := h.leftHalf htext' hfront'
  have hle := h.cut_le htext' hfront'
  refine ⟨line.leftHalf (i + j) (front ++ mid), (line.rightHalf i back).leftHalf j mid,
    line.rightHalf (i + j) rest, splitAt_eq h hlen htext' hfront', ?_, ?_⟩
  · have hsplit := splitAt_eq hright (Nat.lt_of_le_of_lt (Nat.sub_le _ _) hlen) hback hmid
    rw [rightHalf_rightHalf] at hsplit
    exact hsplit
  · have hsplit := splitAt_eq hfirst (Nat.lt_of_le_of_lt hle hlen) rfl hfront
    rw [leftHalf_leftHalf h, rightHalf_leftHalf h i j _ back] at hsplit
    exact hsplit

/-- The text "abc" in two runs of glyphs, with a decoration across the split. -/
def lineABC : ShapedLine ℚ Nat where
  layout := {
    fontSize := 1
    width := 6
    ascent := 1
    descent := 1
    runs := [⟨0, [⟨0, 0, 0, 0, false⟩]⟩, ⟨1, [⟨1, 2, 0, 1, false⟩, ⟨2, 4, 0, 2, false⟩]⟩]
    len := 3 }
  text := ['a', 'b', 'c']
  decorationRuns := [⟨⟨0, none, none, none⟩, 1⟩, ⟨⟨0, some 7, none, none⟩, 2⟩]

theorem lineABC_valid : lineABC.Valid where
  indices := by decide
  glyphs := by
    intro glyph hglyph
    simp only [lineABC, LineLayout.shapedGlyphs, flatMap_cons, flatMap_nil,
      append_nil, cons_append, nil_append, mem_cons, not_mem_nil,
      or_false] at hglyph
    rcases hglyph with rfl | rfl | rfl
    · exact ⟨'a', rfl⟩
    · exact ⟨'b', rfl⟩
    · exact ⟨'c', rfl⟩
  len := by decide
  decorations := by decide

theorem splitAt_exact_lineABC :
    ∃ left right, lineABC.splitAt 2 = .ok (left, right) ∧ lineABC.Splits 2 left right ∧
      ∀ j, right.SplitPoint j →
        ∃ first mid rest, lineABC.splitAt (2 + j) = .ok (first, rest) ∧
          right.splitAt j = .ok (mid, rest) ∧ first.splitAt 2 = .ok (left, mid) :=
  splitAt_exact lineABC lineABC_valid (by decide) 2
    (Or.inr (Or.inl ⟨⟨2, 4, 0, 2, false⟩, .tail _ (.tail _ (.head _)), rfl⟩))

/-- A line of 2^32 bytes in two decorations, which a 32-bit number does not count. -/
def longLine : ShapedLine ℚ Nat where
  layout := ⟨1, 0, 1, 1, [], 2 ^ 32⟩
  text := List.replicate (2 ^ 32) 'a'
  decorationRuns := [⟨⟨0, none, none, none⟩, 2 ^ 31⟩, ⟨⟨1, none, none, none⟩, 2 ^ 31⟩]

/-- It cannot be split. -/
theorem long_line_not_split :
    ¬ ∀ line : ShapedLine ℚ Nat, line.Valid → (∀ run ∈ line.decorationRuns, run.len < 2 ^ 32) →
      ∀ i, line.SplitPoint i →
        ∃ left right, line.splitAt i = .ok (left, right) ∧ line.Splits i left right := by
  intro h
  have hvalid : longLine.Valid := by
    refine ⟨List.Pairwise.nil, ?_, WindowTextSystem.utf8Len_replicate (2 ^ 32), rfl⟩
    intro glyph hglyph
    cases hglyph
  obtain ⟨left, right, hsplit, _⟩ := h longLine hvalid (by decide) 0 (Or.inl rfl)
  have hpanic : longLine.splitAt 0 = .error .addOverflow := rfl
  rw [hpanic] at hsplit
  cases hsplit

end ShapedLine

end Gpui
