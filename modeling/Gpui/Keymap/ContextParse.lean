import Gpui.Keymap.Parse

/-! # Keymap: the parser of key contexts

    `KeyContext::parse` reads one entry and calls itself on the rest.  Nothing
    rejects a character that cannot begin an entry, so the recursion may pass on the
    source it was given; the counter of the model stands for the calls, and a parse
    that does not return has no counter that is large enough. -/

namespace Gpui

open List

namespace KeyContext

def default : KeyContext := ⟨[]⟩

def add (context : KeyContext) (key : Text) : KeyContext :=
  if context.contains key then context
  else ⟨context.entries ++ [{ key := key, value := none }]⟩

def set (context : KeyContext) (key value : Text) : KeyContext :=
  if context.contains key then context
  else ⟨context.entries ++ [{ key := key, value := some value }]⟩

variable [CharTables]

/-- The entry at the start of the source, and what is left for the recursive call. -/
def parseEntry (source : Text) : ContextEntry × Text :=
  let key := source.takeWhile isIdentifierChar
  match skipWhitespace (source.dropWhile isIdentifierChar) with
  | '=' :: suffix =>
      let source := skipWhitespace suffix
      let value := source.takeWhile isIdentifierChar
      ({ key := key, value := some value }, skipWhitespace (source.dropWhile isIdentifierChar))
  | source => ({ key := key, value := none }, source)

/-- `none` stands for a parse that needs more than `n` calls. -/
def parseExpr : Nat → Text → KeyContext → Option KeyContext
  | 0, _, _ => none
  | n + 1, source, context =>
      if source.isEmpty then some context
      else
        let (entry, rest) := parseEntry source
        parseExpr n rest (match entry.value with
          | some value => context.set entry.key value
          | none       => context.add entry.key)

def parse (n : Nat) (source : Text) : Option KeyContext :=
  parseExpr n (skipWhitespace source) default

/-! ## The calls -/

/-- The sources that `parse_expr` is called with. -/
inductive Calls (source : Text) : Text → Prop where
  | first : Calls source (skipWhitespace source)
  | next {s : Text} (call : Calls source s) (hne : s ≠ []) : Calls source (parseEntry s).2

/-- Every call on a non-empty source passes on less than it was given, and the parse
    returns. -/
def Terminates (source : Text) : Prop :=
  (∀ s, Calls source s → s ≠ [] → (parseEntry s).2.length < s.length) ∧
    ∃ n context, parse n source = some context

/-- The characters that some step of the parser consumes. -/
def isContextChar (c : Char) : Bool :=
  isIdentifierChar c || isWhitespace c || c == '='

omit [CharTables] in
theorem skipWhitespace_suffix (source : Text) : skipWhitespace source <:+ source :=
  dropWhile_suffix _

omit [CharTables] in
theorem mem_dropWhile_of_not {p : Char → Bool} {c : Char} {l : Text} (hmem : c ∈ l)
    (hc : p c = false) : c ∈ l.dropWhile p := by
  rw [← takeWhile_append_dropWhile (p := p) (l := l)] at hmem
  rcases mem_append.mp hmem with htake | hdrop
  · have := mem_takeWhile_imp htake
    rw [hc] at this
    exact absurd this Bool.false_ne_true
  · exact hdrop

/-- An entry is read off the front, and there is less left if the front is a character
    that can be consumed. -/
theorem parseEntry_spec (source : Text) :
    (parseEntry source).2 <:+ source ∧
      ∀ c ∈ source.head?, isContextChar c = true → (parseEntry source).2.length < source.length := by
  have hkey : source.dropWhile isIdentifierChar <:+ source := dropWhile_suffix _
  have hskip := (skipWhitespace_suffix (source.dropWhile isIdentifierChar)).trans hkey
  rw [parseEntry]
  split
  · next suffix heq =>
    rw [heq] at hskip
    have hvalue := (skipWhitespace_suffix _).trans ((dropWhile_suffix isIdentifierChar).trans
      (skipWhitespace_suffix suffix))
    refine ⟨hvalue.trans ((suffix_cons _ _).trans hskip), fun c _ _ => ?_⟩
    have hlt := hskip.length_le
    exact Nat.lt_of_le_of_lt hvalue.length_le hlt
  · next hnot =>
    refine ⟨hskip, fun c hc hconsumed => ?_⟩
    obtain ⟨tail, rfl⟩ : ∃ tail, source = c :: tail := by
      cases source with
      | nil => cases hc
      | cons d tail => exact ⟨tail, by rw [Option.some.inj hc]⟩
    by_cases hident : isIdentifierChar c = true
    · -- the key is not empty
      rw [dropWhile_cons_of_pos hident]
      have hle := ((skipWhitespace_suffix (tail.dropWhile isIdentifierChar)).trans
        (dropWhile_suffix isIdentifierChar)).length_le
      exact Nat.lt_succ_of_le hle
    · rw [dropWhile_cons_of_neg hident] at hnot ⊢
      by_cases hwhite : isWhitespace c = true
      · rw [skipWhitespace, dropWhile_cons_of_pos hwhite]
        exact Nat.lt_succ_of_le (skipWhitespace_suffix tail).length_le
      · -- an `=` is taken by the other branch
        exfalso
        have heq : c = '=' := by
          simpa [isContextChar, hident, hwhite] using hconsumed
        rw [skipWhitespace, dropWhile_cons_of_neg hwhite, heq] at hnot
        exact hnot _ rfl

/-- A character that no step consumes is passed on. -/
theorem mem_parseEntry {c : Char} {source : Text} (hmem : c ∈ source)
    (hc : isContextChar c = false) : c ∈ (parseEntry source).2 := by
  simp only [isContextChar, Bool.or_eq_false_iff, beq_eq_false_iff_ne] at hc
  obtain ⟨⟨hident, hwhite⟩, hne⟩ := hc
  have hskip : c ∈ skipWhitespace (source.dropWhile isIdentifierChar) :=
    mem_dropWhile_of_not (mem_dropWhile_of_not hmem hident) hwhite
  rw [parseEntry]
  split
  · next suffix heq =>
    rw [heq] at hskip
    have hsuffix : c ∈ suffix := (mem_cons.mp hskip).resolve_left hne
    exact mem_dropWhile_of_not (mem_dropWhile_of_not (mem_dropWhile_of_not hsuffix hwhite) hident)
      hwhite
  · exact hskip

/-- With such a character in the source no number of calls is enough. -/
theorem parseExpr_of_mem {c : Char} (hc : isContextChar c = false) :
    ∀ (n : Nat) {source : Text} (context : KeyContext), c ∈ source →
      parseExpr n source context = none := by
  intro n
  induction n with
  | zero => exact fun _ _ => rfl
  | succ n ih =>
    intro source context hmem
    have hne : source.isEmpty = false := by
      cases source with
      | nil => cases hmem
      | cons _ _ => rfl
    rw [parseExpr, hne, if_neg Bool.false_ne_true]
    exact ih _ (mem_parseEntry hmem hc)

/-- Without one the parse returns. -/
theorem parseExpr_returns (source : Text) (hall : ∀ c ∈ source, isContextChar c = true)
    (context : KeyContext) : ∃ n result, parseExpr n source context = some result := by
  induction hlength : source.length using Nat.strong_induction_on generalizing source context with
  | _ length ih =>
    cases source with
    | nil => exact ⟨1, context, rfl⟩
    | cons c tail =>
      obtain ⟨hsuffix, hlt⟩ := parseEntry_spec (c :: tail)
      obtain ⟨n, result, hresult⟩ := ih _ (hlength ▸ hlt c rfl (hall c mem_cons_self))
        (parseEntry (c :: tail)).2 (fun d hd => hall d (hsuffix.subset hd)) _ rfl
      exact ⟨n + 1, result, hresult⟩

theorem Calls.suffix {source s : Text} (call : Calls source s) : s <:+ source := by
  induction call with
  | first => exact skipWhitespace_suffix source
  | next _ _ ih => exact (parseEntry_spec _).1.trans ih

/-- **The parser of key contexts terminates** on a source exactly when every character
    of it is consumed by some step. -/
theorem parse_terminates_iff (source : Text) :
    Terminates source ↔ ∀ c ∈ source, isContextChar c = true := by
  constructor
  · rintro ⟨-, n, context, hparse⟩ c hmem
    by_contra hnot
    have hc : isContextChar c = false := by simpa using hnot
    have hwhite : isWhitespace c = false := by
      simp only [isContextChar, Bool.or_eq_false_iff] at hc
      exact hc.1.2
    have hleft : c ∈ skipWhitespace source := mem_dropWhile_of_not hmem hwhite
    rw [parse, parseExpr_of_mem hc n default hleft] at hparse
    cases hparse
  · intro hall
    refine ⟨fun s call hne => ?_, ?_⟩
    · obtain ⟨c, tail, rfl⟩ := exists_cons_of_ne_nil hne
      exact (parseEntry_spec _).2 c rfl (hall c (call.suffix.subset mem_cons_self))
    · exact parseExpr_returns _ (fun c hc => hall c ((skipWhitespace_suffix source).subset hc)) _

omit [CharTables] in
/-- A `!` is never consumed: the parse calls itself on the source it was given. -/
theorem parse_diverges :
    (@parseEntry asciiTables ['!']).2 = ['!'] ∧
      (∀ n, @parse asciiTables n ['!'] = none) ∧ ¬ @Terminates asciiTables ['!'] := by
  have hnever : ∀ n, @parse asciiTables n ['!'] = none := fun n =>
    @parseExpr_of_mem asciiTables '!' (by decide) n ['!'] default (by decide)
  refine ⟨by decide, hnever, ?_⟩
  rintro ⟨-, n, context, hparse⟩
  rw [hnever n] at hparse
  cases hparse

end KeyContext

end Gpui
