import Gpui.Text.Slices

/-! # Fallback fonts

    A run of a text is cut into spans, each with a font of its own: the one of the run, or one
    that it falls back to.  The text is segmented into clusters, which no span cuts.

    * **`computeRunSpans_partitions`**: the spans are the run, and every cluster is in the slot
      it should be in. -/

namespace Gpui

open List

namespace FontFallback

/-! ### Section 1: The model -/

/-- The slot is `none` for the primary font. -/
structure RunSpan (F : Type) where
  start : Nat
  stop : Nat
  slot : Option Nat
  fontId : F
deriving DecidableEq, Repr

section Model

variable {F : Type} (covers : F → Char → Bool) (primary : F) (fallbackChain : List (F × String))

def slotFontId : Option Nat → Run F
  | none    => .ok primary
  | some ix => (getIndex fallbackChain ix).map Prod.fst

def pickCoveringSlot (ch : Char) (current : Option Nat) : Run (Option Nat) :=
  if ch.toNat ≤ 0x7F then .ok none
  else if covers primary ch then .ok none
  else do
    let currentId ← slotFontId primary fallbackChain current
    if covers currentId ch then .ok current
    else .ok (fallbackChain.findIdx? (fun font => covers font.1 ch))

/-- The loop over the clusters from a position on, in a span that was begun at `start`. -/
def spansFrom (runEnd : Nat) : List (List Char) → Nat → Nat → Option Nat → F →
    Run (List (RunSpan F))
  | [], _, start, slot, fontId =>
      .ok (if start < runEnd then [⟨start, runEnd, slot, fontId⟩] else [])
  | cluster :: rest, position, start, slot, fontId => do
      let next ← pickCoveringSlot covers primary fallbackChain (cluster.headD '\x00') slot
      if next = slot then
        spansFrom runEnd rest (position + utf8Len cluster) start slot fontId
      else do
        let nextId ← slotFontId primary fallbackChain next
        let spans ← spansFrom runEnd rest (position + utf8Len cluster) position next nextId
        .ok (if start < position then ⟨start, position, slot, fontId⟩ :: spans else spans)

def computeRunSpans (graphemes : List Char → List (List Char)) (text : List Char)
    (runOffset runLen : Nat) : Run (List (RunSpan F)) :=
  if runOffset + runLen ≤ runOffset then .ok []
  else if fallbackChain.isEmpty then .ok [⟨runOffset, runOffset + runLen, none, primary⟩]
  else do
    let rest ← sliceFrom text runOffset
    let runText ← sliceTo rest runLen
    spansFrom covers primary fallbackChain (runOffset + runLen) (graphemes runText) runOffset
      runOffset none primary

end Model

/-! ### Section 2: What the spans should be -/

/-- The spans follow one another, and none is empty. -/
def Tiles {F : Type} : Nat → Nat → List (RunSpan F) → Prop
  | start, stop, []           => start = stop
  | start, stop, span :: rest => span.start = start ∧ start < span.stop ∧ Tiles span.stop stop rest

section Spec

variable {F : Type} (covers : F → Char → Bool) (primary : F) (fallbackChain : List (F × String))

structure Partitions (start stop : Nat) (spans : List (RunSpan F)) : Prop where
  tiles : Tiles start stop spans
  apart : spans.IsChain (fun span next => span.slot ≠ next.slot)
  fonts : ∀ span ∈ spans, slotFontId primary fallbackChain span.slot = .ok span.fontId

def Primary (ch : Char) : Prop :=
  ch.toNat ≤ 0x7F ∨ covers primary ch = true ∨ ∀ font ∈ fallbackChain, covers font.1 ch = false

/-- The slot covers the character: it is the one before if that does, and else the first. -/
def Covering (previous slot : Option Nat) (ch : Char) : Prop :=
  ∃ ix font, slot = some ix ∧ fallbackChain[ix]? = some font ∧ covers font.1 ch = true ∧
    ((∃ old other, previous = some old ∧ fallbackChain[old]? = some other ∧
        covers other.1 ch = true) → slot = previous) ∧
      (slot = previous ∨ ∀ j other, j < ix → fallbackChain[j]? = some other →
        covers other.1 ch = false)

/-- The slot of a cluster with this first character, after a cluster in slot `previous`. -/
def Fits (previous slot : Option Nat) (ch : Char) : Prop :=
  (Primary covers primary fallbackChain ch → slot = none) ∧
    (¬ Primary covers primary fallbackChain ch → Covering covers fallbackChain previous slot ch)

/-- The clusters from a position on are in spans of the slots that they should be in. -/
def Placed (spans : List (RunSpan F)) : Option Nat → Nat → List (List Char) → Prop
  | _, _, [] => True
  | previous, position, cluster :: rest =>
      ∃ span ∈ spans, span.start ≤ position ∧ position + utf8Len cluster ≤ span.stop ∧
        Fits covers primary fallbackChain previous span.slot (cluster.headD '\x00') ∧
        Placed spans span.slot (position + utf8Len cluster) rest

end Spec

/-! ### Section 3: The loop -/

variable {F : Type} {covers : F → Char → Bool} {primary : F} {fallbackChain : List (F × String)}
variable {clusters : List (List Char)} {spans : List (RunSpan F)} {position start : Nat}
variable {slot : Option Nat} {fontId : F}

theorem pickCoveringSlot_spec (covers : F → Char → Bool) (ch : Char)
    (hfont : slotFontId primary fallbackChain slot = .ok fontId) :
    ∃ next nextId, pickCoveringSlot covers primary fallbackChain ch slot = .ok next ∧
      slotFontId primary fallbackChain next = .ok nextId ∧
      Fits covers primary fallbackChain slot next ch := by
  unfold pickCoveringSlot
  by_cases hascii : ch.toNat ≤ 0x7F
  · rw [if_pos hascii]
    exact ⟨none, primary, rfl, rfl, fun _ => rfl, fun h => absurd (.inl hascii) h⟩
  rw [if_neg hascii]
  by_cases hprimary : covers primary ch = true
  · rw [if_pos hprimary]
    exact ⟨none, primary, rfl, rfl, fun _ => rfl, fun h => absurd (.inr (.inl hprimary)) h⟩
  rw [if_neg hprimary, hfont, Exec.ok_bind]
  by_cases hcurrent : covers fontId ch = true
  · -- the slot is kept
    rw [if_pos hcurrent]
    refine ⟨slot, fontId, rfl, hfont, ?_⟩
    cases slot with
    | none =>
      cases hfont
      exact absurd hcurrent hprimary
    | some ix =>
      obtain ⟨font, hget, rfl⟩ := Exec.map_eq_ok.mp hfont
      have hat : fallbackChain[ix]? = some font := by
        unfold getIndex at hget
        split at hget
        · rename_i hat
          rw [hat, Except.ok.inj hget]
        · cases hget
      refine ⟨fun h => ?_, fun _ => ⟨ix, font, rfl, hat, hcurrent, fun _ => rfl, .inl rfl⟩⟩
      rcases h with h | h | h
      · exact absurd h hascii
      · exact absurd h hprimary
      · rw [h font (mem_of_getElem? hat)] at hcurrent
        cases hcurrent
  rw [if_neg hcurrent]
  cases hfind : fallbackChain.findIdx? (fun font => covers font.1 ch) with
  | none =>
    rw [findIdx?_eq_none_iff] at hfind
    exact ⟨none, primary, rfl, rfl, fun _ => rfl, fun h => absurd (.inr (.inr hfind)) h⟩
  | some ix =>
    obtain ⟨hlt, hcovers, hfirst⟩ := findIdx?_eq_some_iff_getElem.mp hfind
    have hat : fallbackChain[ix]? = some fallbackChain[ix] := getElem?_eq_getElem hlt
    refine ⟨some ix, fallbackChain[ix].1, rfl, ?_, fun h => ?_, fun _ => ?_⟩
    · rw [slotFontId, getIndex_eq_ok hat]
      rfl
    · rcases h with h | h | h
      · exact absurd h hascii
      · exact absurd h hprimary
      · rw [h _ (mem_of_getElem? hat)] at hcovers
        cases hcovers
    · refine ⟨ix, _, rfl, hat, hcovers, ?_, .inr ?_⟩
      · intro ⟨old, other, hold, hother, hcover⟩
        rw [hold, slotFontId, getIndex_eq_ok hother] at hfont
        cases hfont
        exact absurd hcover hcurrent
      · intro j other hj hother
        obtain ⟨hlt', rfl⟩ := List.getElem?_eq_some_iff.mp hother
        simpa using hfirst j hj

theorem Placed.mono {spans' : List (RunSpan F)} (hmem : ∀ span ∈ spans, span ∈ spans')
    (h : Placed covers primary fallbackChain spans slot position clusters) :
    Placed covers primary fallbackChain spans' slot position clusters := by
  induction clusters generalizing slot position with
  | nil => trivial
  | cons cluster rest ih =>
    obtain ⟨span, hspan, hstart, hstop, hfits, hrest⟩ := h
    exact ⟨span, hmem span hspan, hstart, hstop, hfits, ih hrest⟩

/-- A span that was begun in some slot is the first one. -/
def Begins (spans : List (RunSpan F)) (start position : Nat) (slot : Option Nat) : Prop :=
  ∃ span rest, spans = span :: rest ∧ span.start = start ∧ position ≤ span.stop ∧ span.slot = slot

/-- The spans of the clusters that are left, by induction on these. -/
theorem spansFrom_spec (covers : F → Char → Bool) {runEnd : Nat}
    (hnonempty : ∀ cluster ∈ clusters, cluster ≠ [])
    (hend : position + utf8Len clusters.flatten = runEnd) (hstart : start ≤ position)
    (hfont : slotFontId primary fallbackChain slot = .ok fontId) :
    ∃ spans, spansFrom covers primary fallbackChain runEnd clusters position start slot fontId =
        .ok spans ∧ Partitions primary fallbackChain start runEnd spans ∧
      Placed covers primary fallbackChain spans slot position clusters ∧
      (start < position → Begins spans start position slot) := by
  induction clusters generalizing position start slot fontId with
  | nil =>
    rw [flatten_nil, LineWrapper.utf8Len_nil, Nat.add_zero] at hend
    subst hend
    unfold spansFrom
    by_cases hlt : start < position
    · rw [if_pos hlt]
      refine ⟨_, rfl, ⟨⟨rfl, hlt, rfl⟩, isChain_singleton _, ?_⟩, trivial, fun _ => ?_⟩
      · intro span hspan
        rw [mem_singleton.mp hspan]
        exact hfont
      · exact ⟨_, [], rfl, rfl, le_refl _, rfl⟩
    · rw [if_neg hlt]
      exact ⟨[], rfl, ⟨le_antisymm hstart (not_lt.mp hlt), isChain_nil, by simp⟩, trivial,
        fun h => absurd h hlt⟩
  | cons cluster rest ih =>
    have hrest : ∀ cluster ∈ rest, cluster ≠ [] :=
      fun c hc => hnonempty c (mem_cons_of_mem _ hc)
    have hpos : position < position + utf8Len cluster := by
      obtain ⟨c, tail, rfl⟩ := exists_cons_of_ne_nil (hnonempty cluster mem_cons_self)
      have hsize := c.utf8Size_pos
      rw [LineWrapper.utf8Len_cons]
      omega
    rw [flatten_cons, LineWrapper.utf8Len_append, ← Nat.add_assoc] at hend
    obtain ⟨next, nextId, hpick, hnext, hfits⟩ :=
      pickCoveringSlot_spec covers (cluster.headD '\x00') hfont
    unfold spansFrom
    rw [hpick, Exec.ok_bind]
    by_cases hsame : next = slot
    · -- the span goes on
      rw [if_pos hsame]
      obtain ⟨spans, hspans, hparts, hplaced, hbegins⟩ :=
        ih hrest hend (hstart.trans hpos.le) hfont
      obtain ⟨span, later, rfl, hfirst, hstop, hslot⟩ := hbegins (by omega)
      refine ⟨_, hspans, hparts, ?_, fun _ => ⟨span, later, rfl, hfirst, by omega, hslot⟩⟩
      refine ⟨span, mem_cons_self, hfirst.le.trans hstart, hstop, ?_, ?_⟩
      · rw [hslot]
        exact hsame ▸ hfits
      · rw [hslot]
        exact hplaced
    · rw [if_neg hsame, hnext, Exec.ok_bind]
      obtain ⟨spans, hspans, hparts, hplaced, hbegins⟩ := ih hrest hend hpos.le hnext
      obtain ⟨span, later, rfl, hfirst, hstop, hslot⟩ := hbegins hpos
      rw [hspans, Exec.ok_bind]
      have hhere : Placed covers primary fallbackChain (span :: later) slot position
          (cluster :: rest) := by
        refine ⟨span, mem_cons_self, hfirst.le, hstop, ?_, ?_⟩
        · rw [hslot]
          exact hfits
        · rw [hslot]
          exact hplaced
      by_cases hlt : start < position
      · rw [if_pos hlt]
        refine ⟨_, rfl, ⟨⟨rfl, hlt, hparts.tiles⟩, ?_, ?_⟩,
          hhere.mono (fun _ => mem_cons_of_mem _), fun _ => ⟨_, _, rfl, rfl, le_refl _, rfl⟩⟩
        · refine List.IsChain.cons_cons ?_ hparts.apart
          rw [hslot]
          exact Ne.symm hsame
        · intro other hother
          rcases mem_cons.mp hother with rfl | hother
          · exact hfont
          · exact hparts.fonts other hother
      · have heq : start = position := le_antisymm hstart (not_lt.mp hlt)
        rw [if_neg hlt]
        refine ⟨_, rfl, ?_, hhere, fun h => absurd h hlt⟩
        rw [heq]
        exact hparts

/-! ### Section 4: A run -/

/-- A text is segmented into clusters that are not empty. -/
structure Segments (graphemes : List Char → List (List Char)) : Prop where
  flatten : ∀ text, (graphemes text).flatten = text
  nonempty : ∀ text, ∀ cluster ∈ graphemes text, cluster ≠ []

/-- With no font to fall back to, one span has all clusters. -/
theorem placed_single {runEnd : Nat} (hstart : start ≤ position)
    (hend : position + utf8Len clusters.flatten = runEnd) :
    Placed covers primary [] [⟨start, runEnd, none, primary⟩] none position clusters := by
  induction clusters generalizing position with
  | nil => trivial
  | cons cluster rest ih =>
    rw [flatten_cons, LineWrapper.utf8Len_append, ← Nat.add_assoc] at hend
    refine ⟨_, mem_cons_self, hstart, by rw [← hend]; exact Nat.le_add_right _ _, ?_,
      ih (hstart.trans (Nat.le_add_right _ _)) hend⟩
    exact ⟨fun _ => rfl, fun h => absurd (.inr (.inr (fun _ hfont => by cases hfont))) h⟩

/-- **The spans of a run partition it**, and every cluster is in the slot it should be in. -/
theorem computeRunSpans_partitions {graphemes : List Char → List (List Char)}
    (hgraphemes : Segments graphemes) (covers : F → Char → Bool) (primary : F)
    (fallbackChain : List (F × String)) (before runText after : List Char) :
    ∃ spans, computeRunSpans covers primary fallbackChain graphemes (before ++ runText ++ after)
        (utf8Len before) (utf8Len runText) = .ok spans ∧
      Partitions primary fallbackChain (utf8Len before) (utf8Len before + utf8Len runText) spans ∧
      Placed covers primary fallbackChain spans none (utf8Len before) (graphemes runText) := by
  have hend : utf8Len before + utf8Len (graphemes runText).flatten =
      utf8Len before + utf8Len runText := by rw [hgraphemes.flatten]
  unfold computeRunSpans
  by_cases hempty : utf8Len before + utf8Len runText ≤ utf8Len before
  · rw [if_pos hempty]
    refine ⟨[], rfl, ⟨le_antisymm (Nat.le_add_right _ _) hempty, isChain_nil, by simp⟩, ?_⟩
    -- an empty run has no clusters
    cases hclusters : graphemes runText with
    | nil => trivial
    | cons cluster rest =>
      have hne := hgraphemes.nonempty runText cluster (by rw [hclusters]; exact mem_cons_self)
      obtain ⟨c, tail, rfl⟩ := exists_cons_of_ne_nil hne
      have hsize := c.utf8Size_pos
      rw [hclusters, flatten_cons, LineWrapper.utf8Len_append, LineWrapper.utf8Len_cons] at hend
      omega
  rw [if_neg hempty]
  cases fallbackChain with
  | nil =>
    refine ⟨_, rfl, ⟨⟨rfl, not_le.mp hempty, rfl⟩, isChain_singleton _, ?_⟩,
      placed_single (le_refl _) hend⟩
    intro span hspan
    rw [mem_singleton.mp hspan]
    rfl
  | cons font fonts =>
    have hfont : slotFontId primary (font :: fonts) none = .ok primary := rfl
    obtain ⟨spans, hspans, hparts, hplaced, -⟩ :=
      spansFrom_spec covers (hgraphemes.nonempty runText) hend (le_refl _) hfont
    refine ⟨spans, ?_, hparts, hplaced⟩
    rw [append_assoc, LineWrapper.sliceFrom_append, if_neg (by simp), Exec.ok_bind,
      LineWrapper.sliceTo_append, Exec.ok_bind, hspans]

/-- An accented letter that only the first fallback font has. -/
theorem computeRunSpans_partitions_accent :
    ∃ spans, computeRunSpans (fun font ch => font == 1 && ch == 'é') 0 [(1, "Lilex")]
        (fun text => text.map (fun c => [c])) ([] ++ ['a', 'é'] ++ []) (utf8Len [])
        (utf8Len ['a', 'é']) = .ok spans ∧
      Partitions 0 [(1, "Lilex")] (utf8Len []) (utf8Len [] + utf8Len ['a', 'é']) spans ∧
      Placed (fun font ch => font == 1 && ch == 'é') 0 [(1, "Lilex")] spans none (utf8Len [])
        (['a', 'é'].map (fun c => [c])) :=
  computeRunSpans_partitions ⟨fun text => by simp [← flatMap_def], by simp⟩ _ _ _ [] ['a', 'é'] []

end FontFallback

end Gpui
