import Gpui.Text.LineLayoutCacheSpec
import Gpui.Text.ShapeText

/-! # Shaping a text of several lines: who gets which run

    The runs of a text give a style to every byte of it.  A line takes the styles of its own
    bytes off the front, the newline behind it takes one, and what is left belongs to the
    lines that follow.

    * `takeRuns_spec` is what one line takes.
    * `foldlM_processLine_spec` is what all lines take, by induction on the lines.
    * **`shapeText_distributes`**: no byte of a line gets another style than that of its
      run. -/

namespace Gpui

open List

namespace WindowTextSystem

open LineLayoutCache (Holds GoodLine)

variable {X C F : Type} [DecidableEq X] [DecidableEq C] (resolveFont : F → Nat)

/-! ### Section 1: The styles of bytes -/

/-- The decoration and the font of every byte. -/
def byteStyles (runs : List (TextRun X C F)) :
    List (Decoration X C × Nat) :=
  RunLength.expand TextRun.len (fun run => (run.toDecoration, resolveFont run.font)) runs

section

omit [DecidableEq X] [DecidableEq C]

theorem byteStyles_cons (run : TextRun X C F) (runs : List (TextRun X C F)) :
    byteStyles resolveFont (run :: runs) =
      List.replicate run.len (run.toDecoration, resolveFont run.font) ++
        byteStyles resolveFont runs := rfl

theorem length_byteStyles (runs : List (TextRun X C F)) :
    (byteStyles resolveFont runs).length = (runs.map TextRun.len).sum :=
  RunLength.length_expand ..

/-- The bytes of a run up to one of them, and those behind it. -/
theorem byteStyles_split (run : TextRun X C F) (runs : List (TextRun X C F)) {n : Nat}
    (hn : n ≤ run.len) :
    byteStyles resolveFont (run :: runs) =
      List.replicate n (run.toDecoration, resolveFont run.font) ++
        byteStyles resolveFont ({ run with len := run.len - n } :: runs) := by
  rw [byteStyles_cons, byteStyles_cons, ← append_assoc, ← replicate_add,
    Nat.add_sub_cancel' hn]

end

/-! ### Section 2: The runs of one line -/

theorem subUsize_eq_ok {a b : Nat} (h : b ≤ a) : subUsize a b = .ok (a - b) := if_pos h

/-- A decoration is pushed for some bytes. -/
theorem pushDecoration_spec (decorationRuns : List (DecorationRun X C)) (run : TextRun X C F)
    {len : Nat} (hlen : (decorationRuns.map DecorationRun.len).sum + len < 2 ^ 32) :
    ∃ r, pushDecoration decorationRuns run len = .ok r ∧
      decorations r.1 = decorations decorationRuns ++ List.replicate len run.toDecoration := by
  have hcast : len % 2 ^ 32 = len := Nat.mod_eq_of_lt (by omega)
  unfold pushDecoration
  rw [hcast]
  rcases eq_nil_or_concat decorationRuns with rfl | ⟨front, last, rfl⟩
  · exact ⟨_, rfl, append_nil _⟩
  · rw [concat_eq_append] at hlen ⊢
    rw [getLast?_concat, dropLast_concat]
    dsimp only
    split
    · next hsame =>
      -- the last run is lengthened
      have hadd : addU32 last.len len = .ok (last.len + len) := by
        apply if_pos
        rw [map_append, List.sum_append, map_singleton, List.sum_singleton] at hlen
        omega
      rw [hadd]
      refine ⟨_, rfl, ?_⟩
      rw [← hsame]
      exact RunLength.expand_lengthen_last DecorationRun.len DecorationRun.toDecoration front
        last { last with len := last.len + len } rfl rfl
    · refine ⟨_, rfl, ?_⟩
      unfold decorations
      rw [RunLength.expand_append]
      congr 1
      exact append_nil _

/-- A font is pushed for some bytes. -/
theorem fontIds_pushFont (fontRuns : List FontRun) (fontId len : Nat) (decorationChanged : Bool) :
    fontIds (pushFont fontRuns fontId len decorationChanged) =
      fontIds fontRuns ++ List.replicate len fontId := by
  unfold pushFont
  rcases eq_nil_or_concat fontRuns with rfl | ⟨front, last, rfl⟩
  · exact append_nil _
  · rw [concat_eq_append, getLast?_concat, dropLast_concat]
    dsimp only
    split
    · next hsame =>
      rw [hsame.1]
      exact RunLength.expand_lengthen_last FontRun.len FontRun.fontId front last
        { last with len := last.len + len } rfl rfl
    · unfold fontIds
      rw [RunLength.expand_append]
      congr 1
      exact append_nil _

/-- What a line takes: the styles of its bytes, and no other. -/
structure Takes (rest : Nat) (decorationRuns : List (DecorationRun X C))
    (fontRuns : List FontRun) (runs : List (TextRun X C F)) (line : LineRuns X C F) : Prop where
  decorations : decorations line.decorationRuns =
    Gpui.decorations decorationRuns ++ ((byteStyles resolveFont runs).take rest).map Prod.fst
  fonts : fontIds line.fontRuns =
    fontIds fontRuns ++ ((byteStyles resolveFont runs).take rest).map Prod.snd
  left : byteStyles resolveFont line.runs = (byteStyles resolveFont runs).drop rest
  pos : ∀ run ∈ line.runs, 0 < run.len

/-- By induction on the runs: a run lies in the line as a whole, or the line ends in it. -/
theorem takeRuns_spec (rest : Nat) (decorationRuns : List (DecorationRun X C))
    (fontRuns : List FontRun) (runs : List (TextRun X C F)) (hpos : ∀ run ∈ runs, 0 < run.len)
    (hlen : (decorationRuns.map DecorationRun.len).sum + rest < 2 ^ 32) :
    ∃ line, takeRuns resolveFont rest decorationRuns fontRuns runs = .ok line ∧
      Takes resolveFont rest decorationRuns fontRuns runs line := by
  induction runs generalizing rest decorationRuns fontRuns with
  | nil =>
    refine ⟨_, rfl, ?_, ?_, drop_nil.symm, hpos⟩
    · show _ = _ ++ List.map Prod.fst (List.take rest [])
      rw [take_nil, map_nil, append_nil]
    · show _ = _ ++ List.map Prod.snd (List.take rest [])
      rw [take_nil, map_nil, append_nil]
  | cons run runs ih =>
    unfold takeRuns
    by_cases hrest : 0 < rest
    · rw [if_pos hrest]
      dsimp only
      have hmin : min rest run.len ≤ run.len := Nat.min_le_right _ _
      obtain ⟨⟨decorationRuns', changed⟩, hpush, hdecorations⟩ := pushDecoration_spec
        decorationRuns run
        (Nat.lt_of_le_of_lt (Nat.add_le_add_left (Nat.min_le_left _ _) _) hlen)
      have hfonts := fontIds_pushFont fontRuns (resolveFont run.font) (min rest run.len) changed
      rw [hpush, subUsize_eq_ok hmin]
      simp only [Exec.ok_bind]
      by_cases hwhole : run.len ≤ rest
      · -- the run lies in the line
        have htake : (byteStyles resolveFont (run :: runs)).take rest =
            List.replicate run.len (run.toDecoration, resolveFont run.font) ++
              (byteStyles resolveFont runs).take (rest - run.len) := by
          rw [byteStyles_cons, take_append, length_replicate,
            take_of_length_le (by rw [length_replicate]; exact hwhole)]
        have hdrop : (byteStyles resolveFont (run :: runs)).drop rest =
            (byteStyles resolveFont runs).drop (rest - run.len) := by
          rw [byteStyles_cons, drop_append, length_replicate,
            drop_of_length_le (by rw [length_replicate]; exact hwhole), nil_append]
        rw [Nat.min_eq_right hwhole] at hdecorations hfonts ⊢
        have hsum : (decorationRuns'.map DecorationRun.len).sum =
            (decorationRuns.map DecorationRun.len).sum + run.len := by
          have hlength := congrArg List.length hdecorations
          unfold decorations at hlength
          rwa [length_append, RunLength.length_expand, RunLength.length_expand,
            length_replicate] at hlength
        rw [if_pos (Nat.sub_self _)]
        obtain ⟨line, htakes, hline⟩ := ih (rest - run.len) decorationRuns'
          (pushFont fontRuns (resolveFont run.font) run.len changed)
          (fun other hmem => hpos other (mem_cons_of_mem _ hmem)) (by omega)
        refine ⟨line, htakes, ?_, ?_, ?_, hline.pos⟩
        · rw [hline.decorations, hdecorations, htake, map_append, map_replicate,
            append_assoc]
        · rw [hline.fonts, hfonts, htake, map_append, map_replicate,
            append_assoc]
        · rw [hline.left, hdrop]
      · -- the line ends in the run
        have hlt : rest < run.len := Nat.not_le.mp hwhole
        rw [Nat.min_eq_left hlt.le] at hdecorations hfonts ⊢
        rw [if_neg (by omega)]
        have hsplit := byteStyles_split resolveFont run runs hlt.le
        have htake : (byteStyles resolveFont (run :: runs)).take rest =
            List.replicate rest (run.toDecoration, resolveFont run.font) := by
          rw [hsplit, take_append, length_replicate, Nat.sub_self, take_zero,
            append_nil, take_of_length_le (by rw [length_replicate])]
        refine ⟨_, rfl, ?_, ?_, ?_, ?_⟩
        · rw [htake, map_replicate]
          exact hdecorations
        · rw [htake, map_replicate]
          exact hfonts
        · rw [hsplit, drop_append, length_replicate, Nat.sub_self, drop_zero,
            drop_of_length_le (by rw [length_replicate]), nil_append]
        · intro other hmem
          rcases mem_cons.mp hmem with rfl | hmem
          · exact Nat.sub_pos_of_lt hlt
          · exact hpos other (mem_cons_of_mem _ hmem)
    · -- the line is empty, or at its end
      obtain rfl : rest = 0 := by omega
      refine ⟨_, rfl, ?_, ?_, rfl, hpos⟩
      · exact (append_nil _).symm
      · exact (append_nil _).symm

omit [DecidableEq X] [DecidableEq C] in
/-- The newline takes the style of one byte. -/
theorem skipNewline_spec (runs : List (TextRun X C F)) (hpos : ∀ run ∈ runs, 0 < run.len) :
    ∃ runs', skipNewline runs = .ok runs' ∧
      byteStyles resolveFont runs' = (byteStyles resolveFont runs).drop 1 ∧
      ∀ run ∈ runs', 0 < run.len := by
  cases runs with
  | nil => exact ⟨[], rfl, rfl, hpos⟩
  | cons run runs =>
    have hrun : 1 ≤ run.len := hpos run (mem_cons_self ..)
    have hrest : ∀ other ∈ runs, 0 < other.len :=
      fun other hmem => hpos other (mem_cons_of_mem _ hmem)
    have hdrop : (byteStyles resolveFont (run :: runs)).drop 1 =
        byteStyles resolveFont ({ run with len := run.len - 1 } :: runs) := by
      rw [byteStyles_split resolveFont _ _ hrun]
      rfl
    unfold skipNewline
    simp only [subUsize_eq_ok hrun, hdrop, Exec.ok_bind]
    split
    · next hzero =>
      refine ⟨runs, rfl, ?_, hrest⟩
      rw [byteStyles_cons, hzero]
      rfl
    · next hne =>
      refine ⟨_, rfl, rfl, ?_⟩
      intro other hmem
      rcases mem_cons.mp hmem with rfl | hmem
      · exact Nat.pos_of_ne_zero hne
      · exact hrest other hmem

/-! ### Section 3: The runs of all lines -/

/-- Where a line begins in the text. -/
def lineStart (lines : List (List Char)) (i : Nat) : Nat :=
  ((lines.take i).map (fun line => utf8Len line + 1)).sum

/-- A line has the styles of the bytes from an index on. -/
structure HasStyles (styles : List (Decoration X C × Nat)) (start : Nat)
    (line : WrappedLine X C) : Prop where
  decorations : decorations line.decorationRuns =
    ((styles.drop start).take (utf8Len line.text)).map Prod.fst
  fonts : fontIds line.fontRuns = ((styles.drop start).take (utf8Len line.text)).map Prod.snd

variable [Field X] [LinearOrder X]

/-- Between two lines: the cache holds what the platform shaped, and no run is empty. -/
structure Ready (st : Shaping X C F) : Prop where
  lines : Holds st.cache.previousFrame.lines st.cache.currentFrame.lines
    (GoodLine st.cache.platformTextSystem)
  pos : ∀ run ∈ st.runs, 0 < run.len

variable (fontSize : X) (wrapWidth : Option X) (lineClamp : Option Nat)

theorem processLine_spec {st : Shaping X C F} (h : Ready st) (lineText : List Char)
    (hlen : utf8Len lineText < 2 ^ 32) :
    ∃ st' line, processLine resolveFont fontSize wrapWidth lineClamp st lineText = .ok st' ∧
      Ready st' ∧ st'.lines = st.lines ++ [line] ∧ line.text = lineText ∧
      HasStyles (byteStyles resolveFont st.runs) 0 line ∧
      byteStyles resolveFont st'.runs =
        (byteStyles resolveFont st.runs).drop (utf8Len lineText + 1) := by
  obtain ⟨taken, htake, htakes⟩ := takeRuns_spec resolveFont (utf8Len lineText) [] [] st.runs
    h.pos (by simpa using hlen)
  obtain ⟨cache, layout, hlayout, hplatform, hgood, _⟩ :=
    LineLayoutCache.layoutWrappedLine_spec lineText fontSize taken.fontRuns wrapWidth
      (lineClamp.map (fun max => max - st.wrappedLines)) h.lines
  obtain ⟨runs, hskip, hstyles, hpos⟩ := skipNewline_spec resolveFont taken.runs htakes.pos
  have hstep : processLine resolveFont fontSize wrapWidth lineClamp st lineText = .ok
      ⟨cache, runs, st.wrappedLines + layout.wrapBoundaries.length,
        st.lines ++ [⟨layout, taken.decorationRuns, lineText, taken.fontRuns⟩]⟩ := by
    unfold processLine
    simp only [htake, hlayout, hskip, Exec.ok_bind]
  refine ⟨_, _, hstep, ⟨?_, hpos⟩, rfl, rfl, ⟨htakes.decorations, htakes.fonts⟩, ?_⟩
  · rw [hplatform]
    exact hgood
  · dsimp only
    rw [hstyles, htakes.left, drop_drop]

/-- By induction on the lines: each takes its styles where the ones before it end. -/
theorem foldlM_processLine_spec {st : Shaping X C F} (h : Ready st) (lines : List (List Char))
    (hlen : ∀ line ∈ lines, utf8Len line < 2 ^ 32) :
    ∃ st' shaped,
      lines.foldlM (processLine resolveFont fontSize wrapWidth lineClamp) st = .ok st' ∧
      st'.lines = st.lines ++ shaped ∧ shaped.map WrappedLine.text = lines ∧
      ∀ i line, shaped[i]? = some line →
        HasStyles (byteStyles resolveFont st.runs) (lineStart lines i) line := by
  induction lines generalizing st with
  | nil => exact ⟨st, [], rfl, (append_nil _).symm, rfl, fun i line hline => by simp at hline⟩
  | cons lineText rest ih =>
    obtain ⟨next, first, hstep, hready, hlines, htext, hfirst, hleft⟩ :=
      processLine_spec resolveFont fontSize wrapWidth lineClamp h lineText
        (hlen lineText (mem_cons_self ..))
    obtain ⟨st', shaped, hfold, hmore, htexts, hstyles⟩ :=
      ih hready (fun line hmem => hlen line (mem_cons_of_mem _ hmem))
    refine ⟨st', first :: shaped, ?_, ?_, ?_, ?_⟩
    · rw [foldlM_cons, hstep]
      exact hfold
    · rw [hmore, hlines, append_assoc]
      rfl
    · rw [map_cons, htext, htexts]
    · intro i line hline
      cases i with
      | zero =>
        obtain rfl : first = line := Option.some.inj hline
        exact hfirst
      | succ i =>
        have hrest := hstyles i line hline
        have hstart : lineStart (lineText :: rest) (i + 1) =
            utf8Len lineText + 1 + lineStart rest i := by
          unfold lineStart
          rw [take_succ_cons, map_cons, sum_cons]
        rw [hstart]
        constructor
        · rw [hrest.decorations, hleft, drop_drop]
        · rw [hrest.fonts, hleft, drop_drop]

/-! ### Section 4: The result -/

section

omit [DecidableEq X] [DecidableEq C] [Field X] [LinearOrder X]

theorem utf8Len_intercalate (line : List Char) (lines : List (List Char)) :
    utf8Len (['\n'].intercalate (line :: lines)) + 1 =
      ((line :: lines).map (fun line => utf8Len line + 1)).sum := by
  induction lines generalizing line with
  | nil => simp [utf8Len]
  | cons next lines ih =>
    have hcons : ['\n'].intercalate (line :: next :: lines) =
        line ++ '\n' :: ['\n'].intercalate (next :: lines) := by
      simp [List.intercalate, List.intersperse]
    have happend : utf8Len (line ++ '\n' :: ['\n'].intercalate (next :: lines)) =
        utf8Len line + (1 + utf8Len (['\n'].intercalate (next :: lines))) := by
      unfold utf8Len
      rw [map_append, List.sum_append, map_cons, sum_cons]
      rfl
    rw [hcons, happend, map_cons, sum_cons, ← ih next]
    omega

/-- A line ends where the text does, or before. -/
theorem lineStart_add_le (text : List Char) {i : Nat} {line : List Char}
    (hline : (text.splitOn '\n')[i]? = some line) :
    lineStart (text.splitOn '\n') i + utf8Len line ≤ utf8Len text := by
  obtain ⟨first, rest, hsplit⟩ := exists_cons_of_ne_nil (splitOn_ne_nil '\n' text)
  have htotal := utf8Len_intercalate first rest
  rw [← hsplit, intercalate_splitOn] at htotal
  obtain ⟨hlt, hget⟩ := List.getElem?_eq_some_iff.mp hline
  have hsucc : lineStart (text.splitOn '\n') (i + 1) =
      lineStart (text.splitOn '\n') i + (utf8Len line + 1) := by
    unfold lineStart
    rw [take_succ_eq_append_getElem hlt, map_append, List.sum_append, hget]
    rfl
  have hle : lineStart (text.splitOn '\n') (i + 1) ≤
      ((text.splitOn '\n').map (fun line => utf8Len line + 1)).sum := by
    unfold lineStart
    exact ((take_sublist _ _).map _).sum_le_sum (fun _ _ => Nat.zero_le _)
  omega

/-- The runs of a line that has its styles are as long as the line. -/
theorem HasStyles.sums {styles : List (Decoration X C × Nat)} {start : Nat}
    {line : WrappedLine X C} (h : HasStyles styles start line)
    (hlen : start + utf8Len line.text ≤ styles.length) :
    (line.decorationRuns.map DecorationRun.len).sum = utf8Len line.text ∧
      (line.fontRuns.map FontRun.len).sum = utf8Len line.text := by
  have hbytes : ((styles.drop start).take (utf8Len line.text)).length = utf8Len line.text := by
    rw [length_take, length_drop, Nat.min_eq_left (by omega)]
  have hdecorations := congrArg List.length h.decorations
  have hfonts := congrArg List.length h.fonts
  unfold Gpui.decorations at hdecorations
  unfold fontIds at hfonts
  rw [RunLength.length_expand, length_map, hbytes] at hdecorations hfonts
  exact ⟨hdecorations, hfonts⟩

end

/-- What `shape_text` should make of a text and its runs. -/
structure Distributes (text : List Char) (runs : List (TextRun X C F))
    (lines : List (WrappedLine X C)) : Prop where
  joined : ['\n'].intercalate (lines.map WrappedLine.text) = text
  decoration_sums : ∀ line ∈ lines,
    (line.decorationRuns.map DecorationRun.len).sum = utf8Len line.text
  font_sums : ∀ line ∈ lines, (line.fontRuns.map FontRun.len).sum = utf8Len line.text
  styles : ∀ i line, lines[i]? = some line →
    HasStyles (byteStyles resolveFont runs) (lineStart (lines.map WrappedLine.text) i) line

/-- **The runs are distributed over the lines without loss**: for all runs that cover a text
    whose lines have less than 2^32 bytes, whatever was laid out before. -/
theorem shapeText_distributes (platform : PlatformTextSystem X)
    (ops : List (LineLayoutCache.Op X)) (session : LineLayoutCache.Session X)
    (hsession : LineLayoutCache.run ⟨.new platform, []⟩ ops = .ok session)
    (text : List Char) (runs : List (TextRun X C F))
    (hcover : (runs.map TextRun.len).sum = utf8Len text)
    (hlen : ∀ line ∈ text.splitOn '\n', utf8Len line < 2 ^ 32) :
    ∃ cache lines,
      shapeText session.cache resolveFont text fontSize runs wrapWidth lineClamp =
        .ok (cache, lines) ∧
      Distributes resolveFont text runs lines := by
  have hinv := (LineLayoutCache.inv_new platform).run hsession
  have hready : Ready (⟨session.cache, runs.filter (fun run => 0 < run.len), 0, []⟩ :
      Shaping X C F) := by
    constructor
    · show Holds _ _ (GoodLine session.cache.platformTextSystem)
      rw [hinv.samePlatform]
      exact hinv.lines
    · intro run hmem
      simpa using of_mem_filter hmem
  obtain ⟨st, shaped, hfold, hlines, htexts, hstyles⟩ :=
    foldlM_processLine_spec resolveFont fontSize wrapWidth lineClamp hready (text.splitOn '\n')
      hlen
  have hfilter : byteStyles resolveFont (runs.filter (fun run => 0 < run.len)) =
      byteStyles resolveFont runs := RunLength.expand_filter _ _ runs
  dsimp only at hstyles hlines
  rw [hfilter] at hstyles
  rw [nil_append] at hlines
  have hsums : ∀ line ∈ shaped,
      (line.decorationRuns.map DecorationRun.len).sum = utf8Len line.text ∧
        (line.fontRuns.map FontRun.len).sum = utf8Len line.text := by
    intro line hmem
    obtain ⟨i, hi⟩ := getElem?_of_mem hmem
    apply (hstyles i line hi).sums
    rw [length_byteStyles, hcover]
    apply lineStart_add_le
    rw [← htexts, getElem?_map, hi]
    rfl
  refine ⟨st.cache, st.lines, ?_, ?_⟩
  · unfold shapeText
    rw [hfold]
    rfl
  · rw [hlines]
    constructor
    · rw [htexts, intercalate_splitOn]
    · exact fun line hmem => (hsums line hmem).1
    · exact fun line hmem => (hsums line hmem).2
    · rw [htexts]
      exact hstyles

/-- Two lines of three bytes around an empty one; a run ends in a newline, and one is
    empty. -/
theorem shapeText_distributes_lines :
    ∃ cache lines,
      shapeText (.new LineLayoutCache.platformABC) id ['a', 'b', 'c', '\n', '\n', 'a', 'b', 'c'] 1
        ([⟨⟨0, none, none, none⟩, 4, 7⟩, ⟨⟨1, none, none, none⟩, 0, 7⟩,
          ⟨⟨0, some 2, none, none⟩, 2, 8⟩, ⟨⟨0, some 2, none, none⟩, 2, 7⟩] :
          List (TextRun ℚ Nat Nat)) (some 3) (some 2) = .ok (cache, lines) ∧
      Distributes id ['a', 'b', 'c', '\n', '\n', 'a', 'b', 'c']
        [⟨⟨0, none, none, none⟩, 4, 7⟩, ⟨⟨1, none, none, none⟩, 0, 7⟩,
          ⟨⟨0, some 2, none, none⟩, 2, 8⟩, ⟨⟨0, some 2, none, none⟩, 2, 7⟩] lines :=
  shapeText_distributes id 1 (some 3) (some 2) LineLayoutCache.platformABC []
    ⟨.new LineLayoutCache.platformABC, []⟩ rfl _ _ (by decide) (by decide)

/-- A line with one run of its length; the length of its decoration run is cut to 32 bits. -/
theorem shapeText_one_run (platform : PlatformTextSystem X) {text : List Char}
    (run : TextRun X C F) (hline : '\n' ∉ text) (hlen : run.len = utf8Len text)
    (hpos : 0 < run.len) :
    ∃ cache line,
      shapeText (.new platform) resolveFont text fontSize [run] wrapWidth lineClamp =
        .ok (cache, [line]) ∧
      line.text = text ∧ line.decorationRuns = [⟨run.toDecoration, run.len % 2 ^ 32⟩] := by
  obtain ⟨cache, layout, hlayout, _⟩ :=
    LineLayoutCache.layoutWrappedLine_spec text fontSize [⟨run.len, resolveFont run.font⟩]
      wrapWidth (lineClamp.map (fun max => max - 0)) (LineLayoutCache.inv_new platform).lines
  have htake : takeRuns resolveFont (utf8Len text) [] [] [run] =
      .ok ⟨[⟨run.toDecoration, run.len % 2 ^ 32⟩], [⟨run.len, resolveFont run.font⟩], []⟩ := by
    unfold takeRuns
    rw [← hlen, if_pos hpos, Nat.min_self]
    dsimp only
    rw [subUsize_eq_ok (Nat.le_refl _)]
    simp only [pushDecoration, pushFont, getLast?_nil, Exec.ok_bind, Nat.sub_self,
      if_true]
    rfl
  refine ⟨cache, ⟨layout, [⟨run.toDecoration, run.len % 2 ^ 32⟩], text,
    [⟨run.len, resolveFont run.font⟩]⟩, ?_, rfl, rfl⟩
  unfold shapeText
  rw [splitOn_eq_singleton hline, filter_cons_of_pos (by simpa using hpos),
    filter_nil]
  unfold processLine
  simp only [foldlM_cons, foldlM_nil, htake, hlayout, skipNewline, Exec.ok_bind]
  rfl

omit [DecidableEq X] [DecidableEq C] [Field X] [LinearOrder X] in
theorem utf8Len_replicate (n : Nat) : utf8Len (List.replicate n 'a') = n := by
  unfold utf8Len
  rw [map_replicate, sum_replicate]
  exact Nat.mul_one n

/-- A line of 2^32 bytes: its decoration run has no length. -/
theorem long_line_not_decorated :
    ¬ ∀ (text : List Char) (runs : List (TextRun ℚ Nat Nat)),
      (runs.map TextRun.len).sum = utf8Len text →
      ∃ cache lines,
        shapeText (.new LineLayoutCache.platformABC) id text 1 runs none none =
          .ok (cache, lines) ∧
        Distributes id text runs lines := by
  intro h
  have hlen : utf8Len (List.replicate (2 ^ 32) 'a') = 2 ^ 32 := utf8Len_replicate _
  obtain ⟨cache, lines, hshape, hdistributes⟩ := h (List.replicate (2 ^ 32) 'a')
    [⟨⟨0, none, none, none⟩, 2 ^ 32, 0⟩] (by rw [hlen]; rfl)
  have hnewline : '\n' ∉ List.replicate (2 ^ 32) 'a' :=
    fun hmem => absurd (eq_of_mem_replicate hmem) (by decide)
  obtain ⟨cache', line, hline, htext, hruns⟩ := shapeText_one_run (X := ℚ) (C := Nat) id 1 none none
    LineLayoutCache.platformABC ⟨⟨0, none, none, none⟩, 2 ^ 32, 0⟩ hnewline hlen.symm
    (Nat.two_pow_pos 32)
  rw [hline] at hshape
  cases hshape
  have hsum := hdistributes.decoration_sums line (mem_singleton_self _)
  rw [hruns, htext, hlen] at hsum
  simp at hsum

end WindowTextSystem

end Gpui
