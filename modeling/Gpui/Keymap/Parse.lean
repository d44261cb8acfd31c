import Gpui.Keymap.Context
import Gpui.Lib.Exec

/-! # Keymap: the predicate parser

    A precedence-climbing parser over the characters of the source.  The
    recursion is bounded by a counter; a source of `n` characters never needs
    more than `n + 1` levels, so the bound is not seen from outside
    (`parseExpr_spec`). -/

namespace Gpui

open List

/-! ## Character classes -/

/-- The characters with the Unicode property `White_Space`. -/
def isWhitespace (c : Char) : Bool :=
  let n := c.toNat
  (9 ≤ n && n ≤ 13) || n == 0x20 || n == 0x85 || n == 0xA0 || n == 0x1680 ||
    (0x2000 ≤ n && n ≤ 0x200A) || n == 0x2028 || n == 0x2029 || n == 0x202F || n == 0x205F ||
    n == 0x3000

/-- The Unicode tables behind `char::is_alphanumeric`: the usual letters and
    digits on ASCII, and never a white space. -/
class CharTables where
  isAlphanumeric : Char → Bool
  isAlphanumeric_ascii : ∀ c : Char, c.toNat < 128 → isAlphanumeric c = c.isAlphanum
  not_isWhitespace : ∀ c : Char, isAlphanumeric c = true → isWhitespace c = false

/-- Tables that know the ASCII characters only. -/
@[reducible] def asciiTables : CharTables where
  isAlphanumeric c := c.toNat < 128 && c.isAlphanum
  isAlphanumeric_ascii c hc := by simp [hc]
  not_isWhitespace c hc := by
    simp only [Char.isAlphanum, Char.isAlpha, Char.isUpper, Char.isLower, Char.isDigit,
      Bool.and_eq_true, Bool.or_eq_true, decide_eq_true_eq] at hc
    simp only [isWhitespace, Char.toNat, ge_iff_le, UInt32.le_iff_toNat_le] at hc ⊢
    simp at hc ⊢
    omega

variable [CharTables]

def isIdentifierChar (c : Char) : Bool :=
  CharTables.isAlphanumeric c || c == '_' || c == '-'

def isVimOperatorChar (c : Char) : Bool :=
  c == '>' || c == '<' || c == '~' || c == '"' || c == '?'

/-- The characters an identifier goes on with. -/
def isWordChar (c : Char) : Bool :=
  isIdentifierChar c || isVimOperatorChar c

def skipWhitespace (source : Text) : Text :=
  source.dropWhile isWhitespace

/-! ## The parser -/

inductive ParseError where
  /-- "unexpected end" -/
  | unexpectedEnd
  /-- "unexpected character '{next:?}'" -/
  | unexpectedCharacter (next : Char)
  /-- "expected a ')'" -/
  | expectedCloseParen
  /-- "operands of == must be identifiers" -/
  | equalOperands
  /-- "operands of != must be identifiers" -/
  | notEqualOperands
  /-- The counter of the model ran out: no source gets here. -/
  | recursionBound
  deriving DecidableEq, Repr

namespace KeyBindingContextPredicate

abbrev Parsed := Except ParseError (KeyBindingContextPredicate × Text)

def precedenceChild : Nat := 1
def precedenceOr : Nat := 2
def precedenceAnd : Nat := 3
def precedenceEq : Nat := 4
def precedenceNot : Nat := 5

def newOr (self other : KeyBindingContextPredicate) :
    Except ParseError KeyBindingContextPredicate := .ok (or self other)

def newAnd (self other : KeyBindingContextPredicate) :
    Except ParseError KeyBindingContextPredicate := .ok (and self other)

def newChild (self other : KeyBindingContextPredicate) :
    Except ParseError KeyBindingContextPredicate := .ok (descendant self other)

def newEq : KeyBindingContextPredicate → KeyBindingContextPredicate →
    Except ParseError KeyBindingContextPredicate
  | identifier left, identifier right => .ok (equal left right)
  | _, _                              => .error .equalOperands

def newNeq : KeyBindingContextPredicate → KeyBindingContextPredicate →
    Except ParseError KeyBindingContextPredicate
  | identifier left, identifier right => .ok (notEqual left right)
  | _, _                              => .error .notEqualOperands

structure Operator where
  text : Text
  precedence : Nat
  constructor : KeyBindingContextPredicate → KeyBindingContextPredicate →
    Except ParseError KeyBindingContextPredicate

/-- The operators, in the order in which they are tried. -/
def operators : List Operator :=
  [⟨['>'], precedenceChild, newChild⟩, ⟨['&', '&'], precedenceAnd, newAnd⟩,
    ⟨['|', '|'], precedenceOr, newOr⟩, ⟨['=', '='], precedenceEq, newEq⟩,
    ⟨['!', '='], precedenceEq, newNeq⟩]

/-- The operator at the start of `source`, if it binds at least as tight as
    `minPrecedence`. -/
def nextOperator (source : Text) (minPrecedence : Nat) : Option Operator :=
  operators.find? (fun operator =>
    operator.text.isPrefixOf source && minPrecedence ≤ operator.precedence)

section

variable (parseExpr : Text → Nat → Parsed)

/-- An operand; `parseExpr` reads what stands in parentheses or after a `!`. -/
def parsePrimary (source : Text) : Parsed :=
  match source with
  | [] => .error .unexpectedEnd
  | next :: rest =>
      if next = '(' then do
        let (predicate, rest) ← parseExpr (skipWhitespace rest) 0
        match rest with
        | ')' :: stripped => .ok (predicate, skipWhitespace stripped)
        | _               => .error .expectedCloseParen
      else if next = '!' then do
        let (predicate, rest) ← parseExpr (skipWhitespace rest) precedenceNot
        .ok (not predicate, rest)
      else if isIdentifierChar next then
        .ok (identifier (source.takeWhile isWordChar),
          skipWhitespace (source.dropWhile isWordChar))
      else if isVimOperatorChar next then
        .ok (identifier [next], skipWhitespace rest)
      else
        .error (.unexpectedCharacter next)

/-- The loop `'parse`: extend `predicate` while an operator follows. -/
def parseLoop : Nat → Nat → KeyBindingContextPredicate → Text → Parsed
  | 0, _, _, _ => .error .recursionBound
  | n + 1, minPrecedence, predicate, source =>
      match nextOperator source minPrecedence with
      | none => .ok (predicate, source)
      | some operator => do
          let (right, rest) ← parseExpr
            (skipWhitespace (source.drop operator.text.length)) (operator.precedence + 1)
          let predicate ← operator.constructor predicate right
          parseLoop n minPrecedence predicate rest

end

def parseExpr : Nat → Text → Nat → Parsed
  | 0, _, _ => .error .recursionBound
  | n + 1, source, minPrecedence => do
      let (predicate, rest) ← parsePrimary (parseExpr n) source
      parseLoop (parseExpr n) (n + 1) minPrecedence predicate rest

def parse (source : Text) : Except ParseError KeyBindingContextPredicate := do
  let source := skipWhitespace source
  let (predicate, rest) ← parseExpr (source.length + 1) source 0
  match rest with
  | next :: _ => .error (.unexpectedCharacter next)
  | []        => .ok predicate

/-! ## What the parser returns -/

open Exec

/-- A piece of source that is read as one identifier. -/
def IsWord : Text → Prop
  | []        => False
  | c :: rest =>
      (isIdentifierChar c = true ∧ ∀ d ∈ rest, isWordChar d = true) ∨
        (isVimOperatorChar c = true ∧ rest = [])

/-- Every name in the predicate is a word. -/
def Worded : KeyBindingContextPredicate → Prop
  | identifier name                         => IsWord name
  | equal left right | notEqual left right  => IsWord left ∧ IsWord right
  | not pred                                => pred.Worded
  | descendant left right | and left right | or left right => left.Worded ∧ right.Worded

omit [CharTables] in
theorem length_skipWhitespace_le (source : Text) :
    (skipWhitespace source).length ≤ source.length :=
  (dropWhile_suffix _).length_le

/-- A well-formed predicate, and less source than there was. -/
def Consumes (source : Text) (r : KeyBindingContextPredicate × Text) : Prop :=
  r.1.Worded ∧ r.2.length < source.length

/-- `parse` is a parser for sources of fewer than `k` characters. -/
def ParsesBelow (k : Nat) (parse : Text → Nat → Parsed) : Prop :=
  ∀ source minPrecedence, source.length < k →
    Ensures (Consumes source) (fun e => e ≠ .recursionBound) (parse source minPrecedence)

theorem parsePrimary_spec {parse : Text → Nat → Parsed} {k : Nat} (hparse : ParsesBelow k parse)
    {source : Text} (hlen : source.length < k + 1) :
    Ensures (Consumes source) (fun e => e ≠ .recursionBound) (parsePrimary parse source) := by
  cases source with
  | nil => simp [parsePrimary]
  | cons next rest =>
    have hskip := length_skipWhitespace_le rest
    have hinner : (skipWhitespace rest).length < k := by
      rw [length_cons] at hlen
      omega
    rw [parsePrimary]
    split
    · apply (hparse _ 0 hinner).bind
      intro ⟨predicate, left⟩ ⟨hworded, hleft⟩
      show Ensures _ _ (match left with
        | ')' :: stripped => _
        | _               => _)
      split
      · next stripped =>
        have := length_skipWhitespace_le stripped
        refine ⟨hworded, ?_⟩
        simp only [length_cons] at hleft ⊢
        omega
      · simp
    split
    · apply (hparse _ precedenceNot hinner).bind
      intro ⟨predicate, left⟩ ⟨hworded, hleft⟩
      refine ⟨hworded, ?_⟩
      simp only [length_cons] at hleft ⊢
      omega
    split
    · next hident =>
      have hword : isWordChar next = true := by simp [isWordChar, hident]
      have htake : (next :: rest).takeWhile isWordChar = next :: rest.takeWhile isWordChar := by
        simp [hword]
      have hdrop : (next :: rest).dropWhile isWordChar = rest.dropWhile isWordChar := by
        simp [hword]
      constructor
      · show IsWord _
        rw [htake]
        exact Or.inl ⟨hident, all_eq_true.mp all_takeWhile⟩
      · show (skipWhitespace _).length < _
        rw [hdrop]
        have := length_skipWhitespace_le (rest.dropWhile isWordChar)
        have := (dropWhile_suffix (l := rest) isWordChar).length_le
        simp only [length_cons]
        omega
    split
    · next hvim =>
      refine ⟨Or.inr ⟨hvim, rfl⟩, ?_⟩
      simp only [length_cons]
      omega
    · simp

variable {operator : Operator}

omit [CharTables] in
theorem nextOperator_spec {source : Text} {minPrecedence : Nat}
    (h : nextOperator source minPrecedence = some operator) :
    operator ∈ operators ∧ operator.text <+: source ∧ minPrecedence ≤ operator.precedence := by
  have hmem := mem_of_find?_eq_some h
  have hsat := find?_some h
  rw [Bool.and_eq_true, isPrefixOf_iff_prefix, decide_eq_true_eq] at hsat
  exact ⟨hmem, hsat⟩

theorem constructor_spec (hmem : operator ∈ operators) {left right : KeyBindingContextPredicate}
    (hl : left.Worded) (hr : right.Worded) :
    Ensures Worded (fun e => e ≠ .recursionBound) (operator.constructor left right) := by
  simp only [operators, mem_cons, not_mem_nil, or_false] at hmem
  rcases hmem with rfl | rfl | rfl | rfl | rfl
  · exact ⟨hl, hr⟩
  · exact ⟨hl, hr⟩
  · exact ⟨hl, hr⟩
  · show Ensures _ _ (newEq left right)
    unfold newEq
    split
    · exact ⟨hl, hr⟩
    · simp
  · show Ensures _ _ (newNeq left right)
    unfold newNeq
    split
    · exact ⟨hl, hr⟩
    · simp

omit [CharTables] in
theorem text_ne_nil (hmem : operator ∈ operators) : 0 < operator.text.length := by
  simp only [operators, mem_cons, not_mem_nil, or_false] at hmem
  rcases hmem with rfl | rfl | rfl | rfl | rfl <;> decide

theorem parseLoop_spec {parse : Text → Nat → Parsed} {k : Nat} (hparse : ParsesBelow k parse)
    (minPrecedence : Nat) :
    ∀ n predicate source, source.length < n → source.length ≤ k → predicate.Worded →
      Ensures (fun r => r.1.Worded ∧ r.2.length ≤ source.length) (fun e => e ≠ .recursionBound)
        (parseLoop parse n minPrecedence predicate source) := by
  intro n
  induction n with
  | zero => intro predicate source hlt; omega
  | succ n ih =>
    intro predicate source hlt hle hworded
    rw [parseLoop]
    cases hnext : nextOperator source minPrecedence with
    | none => exact ⟨hworded, Nat.le_refl _⟩
    | some operator =>
      obtain ⟨hmem, hpre, -⟩ := nextOperator_spec hnext
      have hpos := text_ne_nil hmem
      have hskip := length_skipWhitespace_le (source.drop operator.text.length)
      have hdrop : (source.drop operator.text.length).length =
        source.length - operator.text.length := length_drop ..
      have htext := hpre.length_le
      apply (hparse _ _ (by omega)).bind
      intro ⟨right, rest⟩ ⟨hright, hrest⟩
      have hrest : rest.length < (skipWhitespace (source.drop operator.text.length)).length :=
        hrest
      apply (constructor_spec hmem hworded hright).bind
      intro joined hjoined
      apply (ih joined rest (by omega) (by omega) hjoined).imp
      · intro r ⟨hr, hrlen⟩
        exact ⟨hr, by omega⟩
      · intro e he
        exact he

/-- **The counter is never met**, and every name of the result is a word. -/
theorem parseExpr_spec (n : Nat) : ParsesBelow n (parseExpr n) := by
  induction n with
  | zero => intro source minPrecedence hlen; omega
  | succ n ih =>
    intro source minPrecedence hlen
    apply (parsePrimary_spec ih hlen).bind
    intro ⟨predicate, rest⟩ ⟨hworded, hrest⟩
    have hrest : rest.length < source.length := hrest
    apply (parseLoop_spec ih minPrecedence (n + 1) predicate rest (by omega) (by omega)
      hworded).imp
    · intro r ⟨hr, hrlen⟩
      exact ⟨hr, by omega⟩
    · intro e he
      exact he

theorem parse_spec (source : Text) :
    Ensures Worded (fun e => e ≠ .recursionBound) (parse source) := by
  apply (parseExpr_spec _ _ 0 (Nat.lt_succ_self _)).bind
  intro ⟨predicate, rest⟩ ⟨hworded, _⟩
  cases rest with
  | nil => exact hworded
  | cons next rest => simp

end KeyBindingContextPredicate

end Gpui
