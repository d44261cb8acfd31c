import Gpui.Elements.StyledText

/-! # Styled text looks as it was told

    Highlights and font families are for ranges of a text that are in order, within the
    text and on the boundaries of characters.

    * The runs before the font families cover the text, one for each highlight and one for
      each gap (**`computeRuns_eq_ok`**), so that every byte has its style.
    * A run gets a font family if it lies within the range of one
      (**`applyFontFamilyOverrides_eq_map`**).  A run that a range ends in does not get it.
    * So every byte gets its font family iff each range that changes the family begins and
      ends where runs do (**`looks_iff_aligned`**). -/

namespace Gpui

open List

open Exec (ok_bind)

namespace Elements

open Style (TextRun)
open LineWrapper (sliceFrom_add exists_removed)

/-! ## Slices of a text -/

theorem isCharBoundary_iff {text : List Char} {n : Nat} :
    isCharBoundary text n = true ↔ ∃ kept, sliceFrom text n = .ok kept := by
  unfold isCharBoundary
  cases h : sliceFrom text n with
  | error e => simp
  | ok kept => simp

/-- Cutting twice is cutting once. -/
theorem sliceFrom_sliceFrom {text kept : List Char} {m : Nat} (h : sliceFrom text m = .ok kept)
    (n : Nat) : sliceFrom kept n = sliceFrom text (m + n) := by
  obtain ⟨removed, rfl, rfl⟩ := exists_removed h
  exact (sliceFrom_add removed kept n).symm

theorem isCharBoundary_zero (text : List Char) : isCharBoundary text 0 = true := by
  cases text <;> rfl

theorem sliceFrom_utf8Len (text : List Char) : sliceFrom text (utf8Len text) = .ok [] := by
  have h := LineWrapper.sliceFrom_append text []
  rwa [append_nil] at h

theorem isCharBoundary_utf8Len (text : List Char) : isCharBoundary text (utf8Len text) = true :=
  isCharBoundary_iff.mpr ⟨[], sliceFrom_utf8Len text⟩

/-! ## Where highlights and font families are for -/

/-- Ranges in order, within the text and on the boundaries of characters. -/
structure WellPlaced {α : Type} (text : List Char) (items : List (TextRange × α)) : Prop where
  inOrder  : TextRange.InOrder items
  forward  : ∀ item ∈ items, item.1.start ≤ item.1.stop
  inside   : ∀ item ∈ items, item.1.stop ≤ utf8Len text
  startsAt : ∀ item ∈ items, isCharBoundary text item.1.start = true
  stopsAt  : ∀ item ∈ items, isCharBoundary text item.1.stop = true

namespace WellPlaced

variable {α : Type} {text : List Char}

variable {item : TextRange × α} {items : List (TextRange × α)}

theorem tail
    (h : WellPlaced text (item :: items)) : WellPlaced text items where
  inOrder := (pairwise_cons.mp h.inOrder).2
  forward := fun item' hitem => h.forward item' (mem_cons_of_mem _ hitem)
  inside := fun item' hitem => h.inside item' (mem_cons_of_mem _ hitem)
  startsAt := fun item' hitem => h.startsAt item' (mem_cons_of_mem _ hitem)
  stopsAt := fun item' hitem => h.stopsAt item' (mem_cons_of_mem _ hitem)

theorem head_stop_le {item' : TextRange × α}
    (h : WellPlaced text (item :: items)) (hitem : item' ∈ items) :
    item.1.stop ≤ item'.1.start :=
  (pairwise_cons.mp h.inOrder).1 item' hitem

/-- No byte is in two of the ranges. -/
theorem eq_of_mem (h : WellPlaced text items)
    {item' : TextRange × α} (hitem : item ∈ items) (hitem' : item' ∈ items) {i : Nat}
    (hi : i ∈ item.1) (hi' : i ∈ item'.1) : item = item' := by
  rw [TextRange.mem_iff] at hi hi'
  induction items with
  | nil => simp at hitem
  | cons first rest ih =>
    obtain rfl | hrest := mem_cons.mp hitem
    · obtain rfl | hrest' := mem_cons.mp hitem'
      · rfl
      · have := h.head_stop_le hrest'
        omega
    · obtain rfl | hrest' := mem_cons.mp hitem'
      · have := h.head_stop_le hrest
        omega
      · exact ih h.tail hrest hrest'

end WellPlaced

/-- The item whose range a byte is in. -/
def itemAt {α : Type} (items : List (TextRange × α)) (i : Nat) : Option α :=
  (items.find? (fun item => i ∈ item.1)).map Prod.snd

section ItemAt

variable {α : Type}

variable {items : List (TextRange × α)} {i : Nat}

theorem itemAt_eq_none (h : ∀ item ∈ items, i ∉ item.1) :
    itemAt items i = none := by
  unfold itemAt
  rw [find?_eq_none.mpr (by simpa using h)]
  rfl

theorem itemAt_eq_some {text : List Char}
    (hplaced : WellPlaced text items) {item : TextRange × α} (hitem : item ∈ items)
    (hi : i ∈ item.1) : itemAt items i = some item.2 := by
  unfold itemAt
  cases hfind : items.find? (fun item => i ∈ item.1) with
  | none =>
    rw [find?_eq_none] at hfind
    exact absurd hi (by simpa using hfind item hitem)
  | some found =>
    have hin : i ∈ found.1 := by simpa using find?_some hfind
    rw [hplaced.eq_of_mem hitem (mem_of_find?_eq_some hfind) hi hin]
    rfl

/-- A byte that is in no range before the rest. -/
theorem itemAt_cons_of_notMem {item : TextRange × α}
    (h : i ∉ item.1) : itemAt (item :: items) i = itemAt items i := by
  unfold itemAt
  rw [find?_cons_of_neg (by simpa using h)]

end ItemAt

/-! ## The runs of the highlights -/

namespace StyledText

variable {X : Type} [Field X] [LinearOrder X] [FloorRing X]

/-- The style of a byte under the highlights. -/
def styleAt (base : Style.TextStyle X) (highlights : List (TextRange × HighlightStyle X))
    (i : Nat) : Style.TextStyle X :=
  match itemAt highlights i with
  | some highlight => base.highlight highlight
  | none           => base

/-- Runs begin and end at the ends of the text, or of a highlight. -/
def Border {α : Type} (start stop : Nat) (highlights : List (TextRange × α)) (ix : Nat) : Prop :=
  ix = start ∨ ix = stop ∨ ∃ item ∈ highlights, ix = item.1.start ∨ ix = item.1.stop

/-- A run from one border to the next one, with the style of its bytes. -/
structure IsSegment (base : Style.TextStyle X) (start stop : Nat)
    (highlights : List (TextRange × HighlightStyle X)) (span : Nat × TextRun X) : Prop where
  style  : ∀ i, span.1 ≤ i → i < span.1 + span.2.len →
    span.2.style = styleAt base highlights i
  starts : Border start stop highlights span.1
  stops  : Border start stop highlights (span.1 + span.2.len)
  inner  : ∀ ix, Border start stop highlights ix → ix ≤ span.1 ∨ span.1 + span.2.len ≤ ix

/-- Runs that cover the text from `start` to `stop`. -/
structure Covers (base : Style.TextStyle X) (start stop : Nat)
    (highlights : List (TextRange × HighlightStyle X)) (runs : List (TextRun X)) : Prop where
  sum      : start + (runs.map (·.len)).sum = stop
  segments : ∀ span ∈ RunLength.spans (·.len) start runs, IsSegment base start stop highlights span

variable {start stop ix : Nat} {highlights : List (TextRange × HighlightStyle X)}
variable {runs : List (TextRun X)} {span : Nat × TextRun X} {α : Type}

theorem Covers.exists_span {base : Style.TextStyle X}
    (h : Covers base start stop highlights runs) {i : Nat} (hstart : start ≤ i) (hstop : i < stop) :
    ∃ span ∈ RunLength.spans (·.len) start runs, span.1 ≤ i ∧ i < span.1 + span.2.len :=
  RunLength.exists_span hstart (by rwa [h.sum])

omit [Field X] [LinearOrder X] [FloorRing X] in
theorem Border.cons {item : TextRange × α} {highlights : List (TextRange × α)}
    (h : Border item.1.stop stop highlights ix) :
    Border start stop (item :: highlights) ix := by
  obtain rfl | rfl | ⟨item', hitem, hix⟩ := h
  · exact Or.inr (Or.inr ⟨item, mem_cons_self, Or.inr rfl⟩)
  · exact Or.inr (Or.inl rfl)
  · exact Or.inr (Or.inr ⟨item', mem_cons_of_mem _ hitem, hix⟩)

/-- The run of a gap, if there is one. -/
def gap (base : Style.TextStyle X) (start stop : Nat) : List (TextRun X) :=
  if start < stop then [base.toRun (stop - start)] else []

/-- The runs from `start` on, the gap behind the last highlight included. -/
def segmentRuns (base : Style.TextStyle X) (stop : Nat) :
    Nat → List (TextRange × HighlightStyle X) → List (TextRun X)
  | start, [] => gap base start stop
  | start, (range, highlight) :: highlights =>
      gap base start range.start ++
        (base.highlight highlight).toRun range.len :: segmentRuns base stop range.stop highlights

section

omit [Field X] [LinearOrder X] [FloorRing X]

theorem start_add_gap (base : Style.TextStyle X) (h : start ≤ stop) :
    start + ((gap base start stop).map (·.len)).sum = stop := by
  unfold gap
  split
  · show start + (stop - start + 0) = stop
    omega
  · show start + 0 = stop
    omega

theorem mem_spans_gap {base : Style.TextStyle X}
    (h : span ∈ RunLength.spans (·.len) start (gap base start stop)) :
    start < stop ∧ span = (start, base.toRun (stop - start)) := by
  unfold gap at h
  split at h
  · next hlt => exact ⟨hlt, by simpa [RunLength.spans] using h⟩
  · simp [RunLength.spans] at h

end

/-- The gap before the first highlight is a segment, and so is the one behind the last. -/
theorem isSegment_gap {base : Style.TextStyle X} {next : Nat} (hlt : start < next)
    (hle : next ≤ stop) (hnext : Border start stop highlights next)
    (hahead : ∀ item ∈ highlights, next ≤ item.1.start ∧ item.1.start ≤ item.1.stop) :
    IsSegment base start stop highlights (start, base.toRun (next - start)) := by
  have hend : start + (next - start) = next := by omega
  constructor
  · intro i hstart hstop
    have hfree : ∀ item ∈ highlights, i ∉ item.1 := by
      intro item hitem hi
      have hi := (TextRange.mem_iff.mp hi).1
      have hstop : i < start + (next - start) := hstop
      have := (hahead item hitem).1
      omega
    rw [styleAt, itemAt_eq_none hfree]
    rfl
  · exact Or.inl rfl
  · show Border start stop highlights (start + (next - start))
    rwa [hend]
  · intro ix hix
    show ix ≤ start ∨ start + (next - start) ≤ ix
    rw [hend]
    obtain rfl | rfl | ⟨item, hitem, hix⟩ := hix
    · exact Or.inl le_rfl
    · exact Or.inr hle
    · have := hahead item hitem
      omega

variable {text : List Char} {item : TextRange × HighlightStyle X}

theorem isSegment_highlight {base : Style.TextStyle X}
    (hplaced : WellPlaced text (item :: highlights)) (hle : start ≤ item.1.start) :
    IsSegment base start (utf8Len text) (item :: highlights)
      (item.1.start, (base.highlight item.2).toRun item.1.len) := by
  have hforward := hplaced.forward item mem_cons_self
  have hinside := hplaced.inside item mem_cons_self
  have hend : item.1.start + item.1.len = item.1.stop := by
    unfold TextRange.len
    omega
  constructor
  · intro i hstart hstop
    have hi : i ∈ item.1 := ⟨hstart, hend ▸ hstop⟩
    rw [styleAt, itemAt_eq_some hplaced mem_cons_self hi]
    rfl
  · exact Or.inr (Or.inr ⟨item, mem_cons_self, Or.inl rfl⟩)
  · exact Or.inr (Or.inr ⟨item, mem_cons_self, Or.inr hend⟩)
  · intro ix hix
    show ix ≤ item.1.start ∨ item.1.start + item.1.len ≤ ix
    rw [hend]
    obtain rfl | rfl | ⟨item', hitem, hix⟩ := hix
    · exact Or.inl hle
    · exact Or.inr hinside
    · obtain rfl | hrest := mem_cons.mp hitem
      · omega
      · have := hplaced.head_stop_le hrest
        have := hplaced.forward item' hitem
        omega

/-- A segment behind the first highlight. -/
theorem IsSegment.cons {base : Style.TextStyle X}
    (h : IsSegment base item.1.stop stop highlights span) (hle : start ≤ item.1.start)
    (hforward : item.1.start ≤ item.1.stop) (hspan : item.1.stop ≤ span.1) :
    IsSegment base start stop (item :: highlights) span where
  style := by
    intro i hstart hstop
    have hi : i ∉ item.1 := fun hi => absurd hi.2 (by omega)
    rw [h.style i hstart hstop, styleAt, styleAt, itemAt_cons_of_notMem hi]
  starts := h.starts.cons
  stops := h.stops.cons
  inner := by
    intro ix hix
    obtain rfl | rfl | ⟨item', hitem, hix⟩ := hix
    · omega
    · exact h.inner _ (Or.inr (Or.inl rfl))
    · obtain rfl | hrest := mem_cons.mp hitem
      · omega
      · exact h.inner ix (Or.inr (Or.inr ⟨item', hrest, hix⟩))

/-- By induction on the highlights: the runs from the end of one on cover the rest. -/
theorem covers_segmentRuns (base : Style.TextStyle X) (hplaced : WellPlaced text highlights)
    (hahead : ∀ item ∈ highlights, start ≤ item.1.start) (hstart : start ≤ utf8Len text) :
    Covers base start (utf8Len text) highlights
      (segmentRuns base (utf8Len text) start highlights) := by
  induction highlights generalizing start with
  | nil =>
    refine ⟨start_add_gap base hstart, ?_⟩
    intro span hspan
    obtain ⟨hlt, rfl⟩ := mem_spans_gap hspan
    exact isSegment_gap hlt le_rfl (Or.inr (Or.inl rfl)) (by simp)
  | cons item rest ih =>
    have hle := hahead item mem_cons_self
    have hforward := hplaced.forward item mem_cons_self
    have hinside := hplaced.inside item mem_cons_self
    have hrest := ih hplaced.tail (fun item' hitem => hplaced.head_stop_le hitem) hinside
    have hend : item.1.start + item.1.len = item.1.stop := by
      unfold TextRange.len
      omega
    have hgap := start_add_gap base hle
    rw [segmentRuns]
    constructor
    · rw [map_append, List.sum_append, ← Nat.add_assoc, hgap, map_cons, sum_cons,
        ← Nat.add_assoc]
      show item.1.start + item.1.len + _ = _
      rw [hend]
      exact hrest.sum
    · intro span hspan
      rw [RunLength.spans_append, hgap, mem_append, RunLength.spans, mem_cons] at hspan
      obtain hspan | rfl | hspan := hspan
      · obtain ⟨hlt, rfl⟩ := mem_spans_gap hspan
        refine isSegment_gap hlt (by omega)
          (Or.inr (Or.inr ⟨item, mem_cons_self, Or.inl rfl⟩)) ?_
        intro item' hitem
        refine ⟨?_, hplaced.forward item' hitem⟩
        obtain rfl | hmem := mem_cons.mp hitem
        · exact le_rfl
        · have := hplaced.head_stop_le hmem
          omega
      · exact isSegment_highlight hplaced hle
      · have hspan : span ∈ RunLength.spans (·.len) item.1.stop
            (segmentRuns base (utf8Len text) item.1.stop rest) := by
          have hsame : item.1.start + (((base.highlight item.2).toRun item.1.len).len) =
              item.1.stop := hend
          rwa [hsame] at hspan
        exact (hrest.segments span hspan).cons hle hforward (RunLength.le_of_mem_spans hspan)

theorem debugAssert_eq_ok {condition : Bool} (h : condition = true) :
    debugAssert condition = .ok () := by
  rw [debugAssert, h]
  rfl

theorem computeRunsFrom_eq_ok (base : Style.TextStyle X) (runs : List (TextRun X))
    (hplaced : WellPlaced text highlights) :
    computeRunsFrom text base runs ix highlights =
      .ok (runs ++ segmentRuns base (utf8Len text) ix highlights) := by
  induction highlights generalizing runs ix with
  | nil =>
    rw [computeRunsFrom, segmentRuns, gap]
    split
    · rfl
    · rw [append_nil]
  | cons item rest ih =>
    have hstarts := hplaced.startsAt item mem_cons_self
    have hstops := hplaced.stopsAt item mem_cons_self
    rw [computeRunsFrom, debugAssert_eq_ok (by rw [hstarts, Bool.or_true]), ok_bind,
      debugAssert_eq_ok hstops, ok_bind, ih _ hplaced.tail, segmentRuns, gap]
    split <;> simp

/-- The runs of the highlights cover the text. -/
theorem computeRuns_eq_ok (base : Style.TextStyle X) (hplaced : WellPlaced text highlights) :
    ∃ runs, computeRuns text base highlights = .ok runs ∧
      Covers base 0 (utf8Len text) highlights runs :=
  ⟨segmentRuns base (utf8Len text) 0 highlights, computeRunsFrom_eq_ok base [] hplaced,
    covers_segmentRuns base hplaced (fun _ _ => Nat.zero_le _) (Nat.zero_le _)⟩

/-- A text without highlights has one run. -/
theorem covers_whole (text : List Char) (base : Style.TextStyle X) :
    Covers base 0 (utf8Len text) [] [base.toRun (utf8Len text)] := by
  constructor
  · show 0 + (utf8Len text + 0) = utf8Len text
    omega
  · intro span hspan
    obtain rfl : span = (0, base.toRun (utf8Len text)) := by
      simpa [RunLength.spans] using hspan
    constructor
    · intro i _ _
      rfl
    · exact Or.inl rfl
    · exact Or.inr (Or.inl (Nat.zero_add _))
    · intro ix hix
      obtain rfl | rfl | ⟨item, hitem, _⟩ := hix
      · exact Or.inl le_rfl
      · exact Or.inr (Nat.zero_add _).le
      · simp at hitem

/-! ## No run is invalid -/

omit [Field X] [LinearOrder X] [FloorRing X] in
/-- Runs that end on the boundaries of characters. -/
theorem afterRuns_eq {text kept : List Char} (hkept : sliceFrom text start = .ok kept)
    (hstops : ∀ span ∈ RunLength.spans (·.len) start runs,
      isCharBoundary text (span.1 + span.2.len) = true) :
    afterRuns kept runs = sliceFrom text (start + (runs.map (·.len)).sum) := by
  induction runs generalizing start kept with
  | nil => exact hkept.symm
  | cons run rest ih =>
    have hrun : isCharBoundary text (start + run.len) = true :=
      hstops (start, run) (by simp [RunLength.spans])
    obtain ⟨kept', hkept'⟩ := isCharBoundary_iff.mp hrun
    rw [afterRuns, sliceFrom_sliceFrom hkept, hkept', ok_bind, map_cons, sum_cons,
      ← Nat.add_assoc]
    exact ih hkept' (fun span hspan => hstops span (mem_cons_of_mem _ hspan))

/-- The ends of a text and of its highlights are boundaries of characters. -/
theorem isCharBoundary_of_border {highlights : List (TextRange × α)}
    (hplaced : WellPlaced text highlights) (h : Border 0 (utf8Len text) highlights ix) :
    isCharBoundary text ix = true := by
  obtain rfl | rfl | ⟨item, hitem, rfl | rfl⟩ := h
  · exact isCharBoundary_zero text
  · exact isCharBoundary_utf8Len text
  · exact hplaced.startsAt item hitem
  · exact hplaced.stopsAt item hitem

theorem withRuns_eq_ok {base : Style.TextStyle X} (self : StyledText X)
    (hplaced : WellPlaced self.text highlights)
    (hcovers : Covers base 0 (utf8Len self.text) highlights runs) :
    self.withRuns runs = .ok { self with runs := some runs } := by
  have hstart : sliceFrom self.text 0 = .ok self.text := by cases self.text <;> rfl
  have hafter := afterRuns_eq hstart
    (fun span hspan => isCharBoundary_of_border hplaced (hcovers.segments span hspan).stops)
  rw [withRuns, hafter, hcovers.sum, sliceFrom_utf8Len, ok_bind]
  rfl

/-! ## The runs of the font families -/

omit [Field X] [LinearOrder X] [FloorRing X] in
theorem find?_dropWhile {p q : α → Bool} (hpq : ∀ a, p a = true → q a = false) (items : List α) :
    (items.dropWhile p).find? q = items.find? q := by
  induction items with
  | nil => rfl
  | cons a rest ih =>
    rw [dropWhile_cons]
    split
    · next hp => rw [ih, find?_cons_of_neg (by simp [hpq a hp])]
    · rfl

/-- A run that lies within the range of an override gets its font family.  Only the first
    override that ends behind the start of the run is looked at. -/
def withFamily (overrides : List (TextRange × String)) (span : Nat × TextRun X) : TextRun X :=
  match overrides.find? (fun item => span.1 < item.1.stop) with
  | none => span.2
  | some item =>
      if item.1.start ≤ span.1 ∧ span.1 + span.2.len ≤ item.1.stop then
        { span.2 with font := { span.2.font with family := item.2 } }
      else span.2

section

omit [Field X] [LinearOrder X] [FloorRing X]

@[simp] theorem withFamily_len (overrides : List (TextRange × String)) (span : Nat × TextRun X) :
    (withFamily overrides span).len = span.2.len := by
  unfold withFamily
  split
  · rfl
  · split <;> rfl

theorem applyFontFamilyOverrides_eq_map (overrides : List (TextRange × String)) (start : Nat)
    (runs : List (TextRun X)) :
    applyFontFamilyOverrides start overrides runs =
      (RunLength.spans (·.len) start runs).map (withFamily overrides) := by
  induction runs generalizing start overrides with
  | nil => rfl
  | cons run rest ih =>
    -- the overrides that are skipped end before every later run
    have hlater : ∀ span ∈ RunLength.spans (·.len) (start + run.len) rest,
        withFamily (overrides.dropWhile (fun item => item.1.stop ≤ start)) span =
          withFamily overrides span := by
      intro span hspan
      have hle := RunLength.le_of_mem_spans hspan
      rw [withFamily, find?_dropWhile (by
        intro item hitem
        have hitem : item.1.stop ≤ start := by simpa using hitem
        simpa using (by omega : item.1.stop ≤ span.1))]
      rfl
    have hhead : (overrides.dropWhile (fun item => item.1.stop ≤ start)).head? =
        overrides.find? (fun item => start < item.1.stop) := by
      rw [find?_eq_head?_dropWhile_not]
      simp only [← decide_not, Nat.not_lt]
    rw [applyFontFamilyOverrides, ih, RunLength.spans, map_cons, map_congr_left hlater]
    congr 1
    rw [withFamily, ← hhead]
    cases overrides.dropWhile (fun item => item.1.stop ≤ start) <;> rfl

variable {overrides : List (TextRange × String)}

theorem withFamily_of_within {text : List Char} (hplaced : WellPlaced text overrides)
    {item : TextRange × String} (hitem : item ∈ overrides) (hstart : item.1.start ≤ span.1)
    (hstop : span.1 + span.2.len ≤ item.1.stop) (hlen : 0 < span.2.len) :
    (withFamily overrides span).style = { span.2.style with fontFamily := item.2 } := by
  have hbehind : span.1 < item.1.stop := by omega
  cases hfind : overrides.find? (fun item => span.1 < item.1.stop) with
  | none =>
    rw [find?_eq_none] at hfind
    exact absurd hbehind (by simpa using hfind item hitem)
  | some found =>
    obtain ⟨hfound, before, after, rfl, hbefore⟩ := find?_eq_some_iff_append.mp hfind
    have hfound : span.1 < found.1.stop := by simpa using hfound
    -- an override before the one that is found ends before the run, one behind it starts later
    have hsame : item = found := by
      obtain hmem | rfl | hmem : item ∈ before ∨ item = found ∨ item ∈ after := by
        simpa using hitem
      · exact absurd hbehind (by simpa using hbefore item hmem)
      · rfl
      · have horder := (pairwise_append.mp hplaced.inOrder).2.1
        have := (pairwise_cons.mp horder).1 item hmem
        omega
    subst hsame
    simp only [withFamily, hfind]
    rw [if_pos ⟨hstart, hstop⟩]
    rfl

theorem withFamily_of_not_within
    (h : ¬ ∃ item ∈ overrides, item.1.start ≤ span.1 ∧ span.1 + span.2.len ≤ item.1.stop) :
    withFamily overrides span = span.2 := by
  unfold withFamily
  split
  · rfl
  · next item hfind =>
    rw [if_neg (fun hwithin => h ⟨item, mem_of_find?_eq_some hfind, hwithin⟩)]

end

/-! ## How the bytes look -/

/-- The text has the length of its runs, and every byte has the style of the highlight and the
    font family of the override that it is in the range of. -/
def Looks (text : List Char) (base : Style.TextStyle X)
    (highlights : List (TextRange × HighlightStyle X)) (overrides : List (TextRange × String))
    (runs : List (TextRun X)) : Prop :=
  (runs.map (·.len)).sum = utf8Len text ∧
    ∀ i < utf8Len text,
      (RunLength.expand (·.len) TextRun.style runs)[i]? =
        some { styleAt base highlights i with
          fontFamily := (itemAt overrides i).getD (styleAt base highlights i).fontFamily }

/-- Every override that is not empty and changes the font family begins and ends at an end of
    the text or of a highlight. -/
def Aligned (text : List Char) (base : Style.TextStyle X)
    (highlights : List (TextRange × HighlightStyle X))
    (overrides : List (TextRange × String)) : Prop :=
  ∀ item ∈ overrides, item.1.start < item.1.stop → item.2 ≠ base.fontFamily →
    Border 0 (utf8Len text) highlights item.1.start ∧
      Border 0 (utf8Len text) highlights item.1.stop

@[simp] theorem styleAt_fontFamily (base : Style.TextStyle X)
    (highlights : List (TextRange × HighlightStyle X)) (i : Nat) :
    (styleAt base highlights i).fontFamily = base.fontFamily := by
  unfold styleAt
  cases itemAt highlights i <;> simp

variable {text : List Char} {overrides : List (TextRange × String)}

/-- The runs look right iff a byte whose run lies within no override has the font family of
    the text. -/
theorem looks_iff_kept {base : Style.TextStyle X} (hplaced : WellPlaced text overrides)
    (hcovers : Covers base 0 (utf8Len text) highlights runs) :
    Looks text base highlights overrides (applyFontFamilyOverrides 0 overrides runs) ↔
      ∀ span ∈ RunLength.spans (·.len) 0 runs,
        (¬ ∃ item ∈ overrides, item.1.start ≤ span.1 ∧ span.1 + span.2.len ≤ item.1.stop) →
          ∀ i, span.1 ≤ i → i < span.1 + span.2.len →
            (itemAt overrides i).getD base.fontFamily = base.fontFamily := by
  have hsum : (runs.map (·.len)).sum = utf8Len text := by
    have := hcovers.sum
    omega
  have hvalue : ∀ span ∈ RunLength.spans (·.len) 0 runs, ∀ i, span.1 ≤ i →
      i < span.1 + span.2.len →
      (RunLength.expand (·.len) TextRun.style
        ((RunLength.spans (·.len) 0 runs).map (withFamily overrides)))[i]? =
          some (withFamily overrides span).style := by
    intro span hspan i hstart hstop
    have hmem : (span.1, withFamily overrides span) ∈ RunLength.spans (·.len) 0
        ((RunLength.spans (·.len) 0 runs).map (withFamily overrides)) := by
      rw [RunLength.spans_map _ (withFamily_len overrides)]
      exact mem_map.mpr ⟨span, hspan, rfl⟩
    exact RunLength.getElem?_expand hmem hstart (by simpa using hstop)
  have hlens : (((RunLength.spans (·.len) 0 runs).map (withFamily overrides)).map
      (·.len)).sum = utf8Len text := by
    rw [map_map, ← hsum, ← RunLength.map_len_spans 0 runs]
    congr 2
    funext span
    exact withFamily_len overrides span
  rw [applyFontFamilyOverrides_eq_map, Looks, and_iff_right hlens]
  constructor
  · intro hlooks span hspan hout i hstart hstop
    have hi : i < utf8Len text := by
      have := RunLength.add_len_le_of_mem_spans hspan
      omega
    have hlook := hlooks i hi
    rw [hvalue span hspan i hstart hstop, withFamily_of_not_within hout,
      (hcovers.segments span hspan).style i hstart hstop] at hlook
    have hfamily := congrArg Style.TextStyle.fontFamily (Option.some.inj hlook)
    rw [styleAt_fontFamily] at hfamily
    exact hfamily.symm
  · intro hkept i hi
    obtain ⟨span, hspan, hstart, hstop⟩ := hcovers.exists_span (Nat.zero_le i) hi
    have hstyle := (hcovers.segments span hspan).style i hstart hstop
    rw [hvalue span hspan i hstart hstop, ← hstyle]
    by_cases hwithin : ∃ item ∈ overrides,
        item.1.start ≤ span.1 ∧ span.1 + span.2.len ≤ item.1.stop
    · obtain ⟨item, hitem, hfirst, hlast⟩ := hwithin
      have hin : i ∈ item.1 := ⟨hfirst.trans hstart, hstop.trans_le hlast⟩
      rw [withFamily_of_within hplaced hitem hfirst hlast (by omega),
        itemAt_eq_some hplaced hitem hin]
      rfl
    · have hfamily : span.2.style.fontFamily = base.fontFamily := by
        rw [hstyle, styleAt_fontFamily]
      rw [withFamily_of_not_within hwithin, hfamily, hkept span hspan hwithin i hstart hstop,
        ← hfamily]

/-- A run that an override ends in is what does not look right. -/
theorem looks_iff_aligned {base : Style.TextStyle X} (hplaced : WellPlaced text overrides)
    (hcovers : Covers base 0 (utf8Len text) highlights runs) :
    Looks text base highlights overrides (applyFontFamilyOverrides 0 overrides runs) ↔
      Aligned text base highlights overrides := by
  rw [looks_iff_kept hplaced hcovers]
  constructor
  · intro hkept item hitem hlt hne
    have hinside := hplaced.inside item hitem
    -- the run around a byte of the override lies within the override
    have hwithin : ∀ i ∈ item.1, ∃ span ∈ RunLength.spans (·.len) 0 runs,
        span.1 ≤ i ∧ i < span.1 + span.2.len ∧
          item.1.start ≤ span.1 ∧ span.1 + span.2.len ≤ item.1.stop := by
      intro i hi
      obtain ⟨span, hspan, hstart, hstop⟩ :=
        hcovers.exists_span (Nat.zero_le i) (hi.2.trans_le hinside)
      by_cases h : ∃ item ∈ overrides,
          item.1.start ≤ span.1 ∧ span.1 + span.2.len ≤ item.1.stop
      · obtain ⟨item', hitem', hfirst, hlast⟩ := h
        have hin : i ∈ item'.1 := ⟨hfirst.trans hstart, hstop.trans_le hlast⟩
        obtain rfl := hplaced.eq_of_mem hitem hitem' hi hin
        exact ⟨span, hspan, hstart, hstop, hfirst, hlast⟩
      · have hsame := hkept span hspan h i hstart hstop
        rw [itemAt_eq_some hplaced hitem hi] at hsame
        exact absurd hsame hne
    constructor
    · obtain ⟨span, hspan, hstart, _, hfirst, _⟩ := hwithin item.1.start ⟨le_rfl, hlt⟩
      rw [le_antisymm hfirst hstart]
      exact (hcovers.segments span hspan).starts
    · obtain ⟨span, hspan, _, hstop, _, hlast⟩ :=
        hwithin (item.1.stop - 1) ⟨by omega, by omega⟩
      have heq : item.1.stop = span.1 + span.2.len := by omega
      rw [heq]
      exact (hcovers.segments span hspan).stops
  · intro haligned span hspan hout i hstart hstop
    by_cases hover : ∃ item ∈ overrides, i ∈ item.1
    · obtain ⟨item, hitem, hi⟩ := hover
      rw [itemAt_eq_some hplaced hitem hi, Option.getD_some]
      by_contra hne
      have hborders := haligned item hitem (hi.1.trans_lt hi.2) hne
      have hfirst := (hcovers.segments span hspan).inner _ hborders.1
      have hlast := (hcovers.segments span hspan).inner _ hborders.2
      have := hi.1
      have := hi.2
      exact hout ⟨item, hitem, by omega, by omega⟩
    · rw [itemAt_eq_none (fun item hitem hi => hover ⟨item, hitem, hi⟩), Option.getD_none]

/-! ## Building the element -/

/-- The highlights that an element is built with. -/
inductive Highlights (X : Type) where
  | none
  /-- Over the style of the window. -/
  | delayed (highlights : List (TextRange × HighlightStyle X))
  | overDefault (defaultStyle : Style.TextStyle X)
      (highlights : List (TextRange × HighlightStyle X))

namespace Highlights

omit [Field X] [LinearOrder X] [FloorRing X]

def list : Highlights X → List (TextRange × HighlightStyle X)
  | .none                     => []
  | .delayed highlights       => highlights
  | .overDefault _ highlights => highlights

/-- The style that the highlights are over. -/
def base (textStyle : Style.TextStyle X) : Highlights X → Style.TextStyle X
  | .none                       => textStyle
  | .delayed _                  => textStyle
  | .overDefault defaultStyle _ => defaultStyle

end Highlights

/-- An element with highlights. -/
def withHighlighting (text : List Char) : Highlights X → Run (StyledText X)
  | .none => .ok (new text)
  | .delayed highlights => (new text).withHighlights highlights
  | .overDefault defaultStyle highlights => (new text).withDefaultHighlights defaultStyle highlights

omit [Field X] [LinearOrder X] [FloorRing X] in
/-- The element with overrides, if it gets some. -/
def withOverrides (self : StyledText X) :
    Option (List (TextRange × String)) → Run (StyledText X)
  | some overrides => self.withFontFamilyOverrides overrides
  | none           => .ok self

/-- The runs at layout of an element with highlights and overrides. -/
def layoutRuns (text : List Char) (highlights : Highlights X)
    (overrides : Option (List (TextRange × String))) (textStyle : Style.TextStyle X) :
    Run (List (TextRun X)) := do
  let self ← withHighlighting text highlights
  let self ← self.withOverrides overrides
  self.requestLayout textStyle

variable {text : List Char}

section

omit [Field X] [LinearOrder X] [FloorRing X]

theorem assertBoundaries_eq_ok {items : List (TextRange × α)} (hplaced : WellPlaced text items) :
    assertBoundaries text items = .ok () := by
  induction items with
  | nil => rfl
  | cons item rest ih =>
    rw [assertBoundaries, debugAssert_eq_ok (hplaced.startsAt item mem_cons_self),
      ok_bind, debugAssert_eq_ok (hplaced.stopsAt item mem_cons_self), ok_bind,
      ih hplaced.tail]

theorem applyFontFamilyOverrides_nil (start : Nat) (runs : List (TextRun X)) :
    applyFontFamilyOverrides start [] runs = runs := by
  induction runs generalizing start with
  | nil => rfl
  | cons run rest ih => exact congrArg (List.cons run) (ih _)

end

/-- Highlights give runs that cover the text, now or at layout. -/
theorem withHighlighting_eq_ok {highlights : Highlights X} (textStyle : Style.TextStyle X)
    (hplaced : WellPlaced text highlights.list) :
    ∃ self runs, withHighlighting text highlights = .ok self ∧ self.text = text ∧
      self.delayedFontFamilyOverrides = none ∧ self.takeRuns textStyle = .ok runs ∧
      Covers (highlights.base textStyle) 0 (utf8Len text) highlights.list
        (runs.getD [textStyle.toRun (utf8Len text)]) := by
  cases highlights with
  | none => exact ⟨new text, none, rfl, rfl, rfl, rfl, covers_whole text textStyle⟩
  | delayed highlights =>
    obtain ⟨runs, hruns, hcovers⟩ := computeRuns_eq_ok textStyle hplaced
    have hassert : assertBoundaries text highlights = .ok () := assertBoundaries_eq_ok hplaced
    refine ⟨{ new text with delayedHighlights := some highlights }, some runs, ?_, rfl, rfl, ?_,
      hcovers⟩
    · show (do
        debugAssert true
        assertBoundaries text highlights
        .ok { new text with delayedHighlights := some highlights } : Run (StyledText X)) = _
      rw [debugAssert_eq_ok rfl, ok_bind, hassert, ok_bind]
    · show (computeRuns text textStyle highlights).map some = _
      rw [show computeRuns text textStyle highlights = .ok runs from hruns]
      rfl
  | overDefault defaultStyle highlights =>
    obtain ⟨runs, hruns, hcovers⟩ := computeRuns_eq_ok defaultStyle hplaced
    refine ⟨{ new text with runs := some runs }, some runs, ?_, rfl, rfl, rfl, hcovers⟩
    show (do
      debugAssert true
      (new text).withRuns (← computeRuns text defaultStyle highlights) : Run (StyledText X)) = _
    rw [debugAssert_eq_ok rfl, ok_bind,
      show computeRuns text defaultStyle highlights = .ok runs from hruns, ok_bind]
    exact withRuns_eq_ok (new text) hplaced hcovers

/-- The runs at layout are those of the highlights, with the font families. -/
theorem layoutRuns_eq_ok {highlights : Highlights X}
    {overrides : Option (List (TextRange × String))} (textStyle : Style.TextStyle X)
    (hhighlights : WellPlaced text highlights.list)
    (hoverrides : WellPlaced text (overrides.getD [])) :
    ∃ runs, Covers (highlights.base textStyle) 0 (utf8Len text) highlights.list runs ∧
      layoutRuns text highlights overrides textStyle =
        .ok (applyFontFamilyOverrides 0 (overrides.getD []) runs) := by
  obtain ⟨self, runs, hself, htext, hdelayed, hruns, hcovers⟩ :=
    withHighlighting_eq_ok textStyle hhighlights
  refine ⟨_, hcovers, ?_⟩
  rw [layoutRuns, hself, ok_bind]
  cases overrides with
  | none =>
    rw [withOverrides, ok_bind, requestLayout, hruns, ok_bind, hdelayed, htext,
      Option.getD_none, applyFontFamilyOverrides_nil]
  | some overrides =>
    have htake : StyledText.takeRuns
        { self with delayedFontFamilyOverrides := some overrides } textStyle = .ok runs := hruns
    have hassert : assertBoundaries self.text overrides = .ok () :=
      assertBoundaries_eq_ok (htext ▸ hoverrides)
    rw [withOverrides, withFontFamilyOverrides, hassert, ok_bind, ok_bind,
      requestLayout, htake, ok_bind]
    show Except.ok (applyFontFamilyOverrides 0 overrides
      (runs.getD [textStyle.toRun (utf8Len self.text)])) = _
    rw [htext]
    rfl

/-- Every byte looks as it was told iff each override that changes the font family begins and
    ends where runs do. -/
theorem layoutRuns_looks {text : List Char} {highlights : Highlights X}
    {overrides : Option (List (TextRange × String))} (textStyle : Style.TextStyle X)
    (hhighlights : WellPlaced text highlights.list)
    (hoverrides : WellPlaced text (overrides.getD [])) :
    ∃ runs, layoutRuns text highlights overrides textStyle = .ok runs ∧
      (Looks text (highlights.base textStyle) highlights.list (overrides.getD []) runs ↔
        Aligned text (highlights.base textStyle) highlights.list (overrides.getD [])) := by
  obtain ⟨runs, hcovers, hruns⟩ := layoutRuns_eq_ok textStyle hhighlights hoverrides
  exact ⟨_, hruns, looks_iff_aligned hoverrides hcovers⟩

end StyledText

namespace StyledTextExample

def textStyle : Style.TextStyle ℚ where
  color := ⟨0, 0, 0, 1⟩
  backgroundColor := none
  underline := none
  strikethrough := none
  fontFamily := ".SystemUIFont"
  fontFeatures := []
  fontFallbacks := none
  fontWeight := 400
  fontStyle := .normal

def bold : HighlightStyle ℚ := { HighlightStyle.none with fontWeight := some 700 }

/-- The first of two characters in bold. -/
def boldHighlight : StyledText.Highlights ℚ := .delayed [(⟨0, 1⟩, bold)]

/-- The first of two characters in another font. -/
def overrides : List (TextRange × String) := [(⟨0, 1⟩, "Mono")]

theorem wellPlaced_first {α : Type} (a : α) :
    WellPlaced ['a', 'b'] [((⟨0, 1⟩ : TextRange), a)] := by
  constructor <;> simp [TextRange.InOrder, isCharBoundary, sliceFrom, utf8Len, Char.utf8Size]

end StyledTextExample

open StyledTextExample

/-- A bold character in another font: the override begins and ends where the highlight does. -/
theorem layoutRuns_looks_bold :
    ∃ runs, StyledText.layoutRuns ['a', 'b'] boldHighlight (some overrides) textStyle = .ok runs ∧
      (StyledText.Looks ['a', 'b'] textStyle [(⟨0, 1⟩, bold)] overrides runs ↔
        StyledText.Aligned ['a', 'b'] textStyle [(⟨0, 1⟩, bold)] overrides) :=
  StyledText.layoutRuns_looks textStyle (wellPlaced_first bold) (wellPlaced_first "Mono")

/-- Without highlights there is one run, and the override is for a part of it. -/
theorem layoutRuns_ignores_override :
    StyledText.layoutRuns ['a', 'b'] .none (some overrides) textStyle =
        .ok [textStyle.toRun 2] ∧
      ¬ StyledText.Looks ['a', 'b'] textStyle [] overrides [textStyle.toRun 2] := by
  constructor
  · rfl
  · intro hlooks
    have hfirst := hlooks.2 0 (by decide)
    revert hfirst
    decide

end Elements

end Gpui
