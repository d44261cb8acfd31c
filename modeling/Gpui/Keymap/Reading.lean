import Gpui.Lib.Precedence
import Gpui.Keymap.Parse

/-! # Keymap: printing a predicate

    Chains of one logical operator are printed flat.  Parentheses are put around
    an `||` under `&&`, around an `&&` under `||`, and after a `!` in front of
    anything but an identifier; a `>` never gets them. -/

namespace Gpui

namespace KeyBindingContextPredicate

inductive LogicalOperator where
  | and
  | or
  deriving DecidableEq, Repr

/-- The operands of a predicate whose root is this operator. -/
def LogicalOperator.operands : LogicalOperator → KeyBindingContextPredicate →
    Option (KeyBindingContextPredicate × KeyBindingContextPredicate)
  | .and, .and left right => some (left, right)
  | .or, .or left right   => some (left, right)
  | _, _                  => none

variable {operator : LogicalOperator}

theorem LogicalOperator.sizeOf_operands {p left right : KeyBindingContextPredicate}
    (h : operator.operands p = some (left, right)) :
    sizeOf left + sizeOf right < sizeOf p := by
  cases operator <;> cases p <;> simp [operands] at h
  all_goals
    obtain ⟨rfl, rfl⟩ := h
    simp

def isOr : KeyBindingContextPredicate → Bool
  | or _ _ => true
  | _      => false

def isAnd : KeyBindingContextPredicate → Bool
  | and _ _ => true
  | _       => false

mutual

def display (self : KeyBindingContextPredicate) : Text :=
  match self with
  | identifier name         => name
  | equal left right        => left ++ [' ', '=', '=', ' '] ++ right
  | notEqual left right     => left ++ [' ', '!', '=', ' '] ++ right
  | descendant parent child => parent.display ++ [' ', '>', ' '] ++ child.display
  | not (identifier name)   => '!' :: name
  | not pred                => ['!', '('] ++ pred.display ++ [')']
  | and left right          =>
      ((and left right).fmtJoinedInner [' ', '&', '&', ' '] .and isOr true).1
  | or left right           =>
      ((or left right).fmtJoinedInner [' ', '|', '|', ' '] .or isAnd true).1
termination_by 2 * sizeOf self + 1
decreasing_by
  all_goals simp [LogicalOperator.operands]
  all_goals omega

/-- What is written for `self` in a chain, and the flag `first` after it. -/
def fmtJoinedInner (self : KeyBindingContextPredicate) (separator : Text)
    (operator : LogicalOperator) (needsParens : KeyBindingContextPredicate → Bool)
    (first : Bool) : Text × Bool :=
  match _h : operator.operands self with
  | some (left, right) =>
      let (leftText, first) := left.fmtJoinedInner separator operator needsParens first
      let (rightText, first) := right.fmtJoinedInner separator operator needsParens first
      (leftText ++ rightText, first)
  | none =>
      ((if first then [] else separator) ++
        (if needsParens self then ['('] ++ self.display ++ [')'] else self.display), false)
termination_by 2 * sizeOf self + (if (operator.operands self).isSome then 0 else 2)
decreasing_by
  · have := LogicalOperator.sizeOf_operands _h
    have : 0 < sizeOf right := by cases right <;> simp
    rw [_h]
    split <;> simp <;> omega
  · have := LogicalOperator.sizeOf_operands _h
    have : 0 < sizeOf left := by cases left <;> simp
    rw [_h]
    split <;> simp <;> omega
  · rw [_h]
    simp
  · rw [_h]
    simp

end

/-! ## The text, one operator at a time -/

/-- An operand of a chain, in parentheses where they are needed. -/
def operandText (needsParens : KeyBindingContextPredicate → Bool)
    (p : KeyBindingContextPredicate) : Text :=
  if needsParens p then ['('] ++ p.display ++ [')'] else p.display

theorem display_not {pred : KeyBindingContextPredicate} (h : ∀ name, pred ≠ identifier name) :
    (not pred).display = ['!', '('] ++ pred.display ++ [')'] := by
  rw [display]
  exact h

/-- The flag `first` only decides whether the separator is written. -/
theorem fmtJoinedInner_first (p : KeyBindingContextPredicate) (separator : Text)
    (operator : LogicalOperator) (needsParens : KeyBindingContextPredicate → Bool) (first : Bool) :
    p.fmtJoinedInner separator operator needsParens first =
      ((if first then [] else separator) ++
        (p.fmtJoinedInner separator operator needsParens true).1, false) := by
  rw [fmtJoinedInner, fmtJoinedInner]
  split
  · next left right h =>
    have := LogicalOperator.sizeOf_operands h
    obtain ⟨leftText, hl⟩ : ∃ t, ∀ b, left.fmtJoinedInner separator operator needsParens b =
        ((if b then [] else separator) ++ t, false) :=
      ⟨_, fun b => fmtJoinedInner_first left separator operator needsParens b⟩
    obtain ⟨rightText, hr⟩ : ∃ t, ∀ b, right.fmtJoinedInner separator operator needsParens b =
        ((if b then [] else separator) ++ t, false) :=
      ⟨_, fun b => fmtJoinedInner_first right separator operator needsParens b⟩
    simp [hl, hr]
  · simp
termination_by sizeOf p

theorem fmtJoinedInner_operands {p left right : KeyBindingContextPredicate}
    (h : operator.operands p = some (left, right)) (separator : Text)
    (needsParens : KeyBindingContextPredicate → Bool) :
    (p.fmtJoinedInner separator operator needsParens true).1 =
      (left.fmtJoinedInner separator operator needsParens true).1 ++ separator ++
        (right.fmtJoinedInner separator operator needsParens true).1 := by
  rw [fmtJoinedInner]
  split
  · next left' right' h' =>
    rw [h] at h'
    cases h'
    rw [fmtJoinedInner_first left separator operator needsParens true]
    simp only [fmtJoinedInner_first right separator operator needsParens false]
    simp
  · next h' => rw [h] at h'; cases h'

theorem fmtJoinedInner_leaf {p : KeyBindingContextPredicate} (h : operator.operands p = none)
    (separator : Text) (needsParens : KeyBindingContextPredicate → Bool) :
    (p.fmtJoinedInner separator operator needsParens true).1 = operandText needsParens p := by
  rw [fmtJoinedInner]
  split
  · next h' => rw [h] at h'; cases h'
  · rfl

theorem fmtJoinedInner_and (p : KeyBindingContextPredicate) :
    (p.fmtJoinedInner [' ', '&', '&', ' '] .and isOr true).1 = operandText isOr p := by
  cases p with
  | and left right => simp [operandText, isOr, display]
  | _ => exact fmtJoinedInner_leaf rfl _ _

theorem fmtJoinedInner_or (p : KeyBindingContextPredicate) :
    (p.fmtJoinedInner [' ', '|', '|', ' '] .or isAnd true).1 = operandText isAnd p := by
  cases p with
  | or left right => simp [operandText, isAnd, display]
  | _ => exact fmtJoinedInner_leaf rfl _ _

theorem display_and (left right : KeyBindingContextPredicate) :
    (and left right).display =
      operandText isOr left ++ [' ', '&', '&', ' '] ++ operandText isOr right := by
  rw [display, fmtJoinedInner_operands rfl, fmtJoinedInner_and, fmtJoinedInner_and]

theorem display_or (left right : KeyBindingContextPredicate) :
    (or left right).display =
      operandText isAnd left ++ [' ', '|', '|', ' '] ++ operandText isAnd right := by
  rw [display, fmtJoinedInner_operands rfl, fmtJoinedInner_or, fmtJoinedInner_or]

end KeyBindingContextPredicate

end Gpui

/-! # Keymap: reading text that is laid out like printed text

    Rules for the parser on a source that is known piece by piece: a word, a
    parenthesised or negated predicate, and from these any line of operands and
    infix operators.  The grouping the parser gives to a line is the layered
    tree over it (`Line.reads`). -/

namespace Gpui

open Exec

variable [CharTables]

/-! ## Characters of the printed text -/

variable {c : Char} {text : Text}

theorem isWordChar_of_ascii (hc : c.toNat < 128) :
    isWordChar c = (c.isAlphanum || c == '_' || c == '-' || isVimOperatorChar c) := by
  rw [isWordChar, isIdentifierChar, CharTables.isAlphanumeric_ascii c hc]

theorem isIdentifierChar_of_ascii (hc : c.toNat < 128) :
    isIdentifierChar c = (c.isAlphanum || c == '_' || c == '-') := by
  rw [isIdentifierChar, CharTables.isAlphanumeric_ascii c hc]

theorem isWhitespace_of_isWordChar (h : isWordChar c = true) :
    isWhitespace c = false := by
  simp only [isWordChar, isIdentifierChar, isVimOperatorChar, Bool.or_eq_true, beq_iff_eq] at h
  rcases h with ((h | rfl) | rfl) | ((((rfl | rfl) | rfl) | rfl) | rfl)
  · exact CharTables.not_isWhitespace c h
  all_goals decide

/-- The next character does not belong to a word. -/
def Delimited : Text → Prop
  | []     => True
  | c :: _ => isWordChar c = false

theorem delimited_space (rest : Text) : Delimited (' ' :: rest) := by
  rw [Delimited, isWordChar_of_ascii (by decide)]
  decide

theorem delimited_closeParen (rest : Text) : Delimited (')' :: rest) := by
  rw [Delimited, isWordChar_of_ascii (by decide)]
  decide

/-- The text begins with a character that is not skipped. -/
def Begins (text : Text) : Prop :=
  ∃ c rest, text = c :: rest ∧ isWhitespace c = false

section

omit [CharTables]

theorem Begins.append (h : Begins text) (rest : Text) : Begins (text ++ rest) := by
  obtain ⟨c, tail, rfl, hc⟩ := h
  exact ⟨c, tail ++ rest, rfl, hc⟩

theorem skipWhitespace_of_begins (h : Begins text) :
    skipWhitespace text = text := by
  obtain ⟨c, rest, rfl, hc⟩ := h
  simp [skipWhitespace, hc]

theorem skipWhitespace_space (h : Begins text) :
    skipWhitespace (' ' :: text) = text := by
  have hspace : skipWhitespace (' ' :: text) = skipWhitespace text := by
    rw [skipWhitespace, List.dropWhile_cons_of_pos (by decide)]
    rfl
  rw [hspace, skipWhitespace_of_begins h]

end

namespace KeyBindingContextPredicate

theorem IsWord.begins {word : Text} (h : IsWord word) : Begins word := by
  cases word with
  | nil => exact h.elim
  | cons c rest =>
    refine ⟨c, rest, rfl, isWhitespace_of_isWordChar ?_⟩
    rcases h with ⟨h, -⟩ | ⟨h, -⟩ <;> simp [isWordChar, h]

/-! ## Rules for the parser -/

/-- Reading at `source` returns `r`, whatever the counter. -/
def Reads (source : Text) (minPrecedence : Nat) (r : KeyBindingContextPredicate × Text) : Prop :=
  ∀ n, source.length < n → parseExpr n source minPrecedence = .ok r

/-- The loop entered with `predicate` at `source` returns `r`. -/
def Continues (source : Text) (minPrecedence : Nat) (predicate : KeyBindingContextPredicate)
    (r : KeyBindingContextPredicate × Text) : Prop :=
  ∀ k n, source.length < n → source.length ≤ k →
    parseLoop (parseExpr k) n minPrecedence predicate source = .ok r

variable {source rest : Text} {minPrecedence : Nat}
  {predicate : KeyBindingContextPredicate} {r : KeyBindingContextPredicate × Text}

theorem Reads.length_lt (h : Reads source minPrecedence r) : r.2.length < source.length :=
  ((parseExpr_spec (source.length + 1) source minPrecedence (Nat.lt_succ_self _)).of_ok
    (h _ (Nat.lt_succ_self _))).2

theorem Continues.stop (h : nextOperator source minPrecedence = none) :
    Continues source minPrecedence predicate (predicate, source) := by
  intro k n hn _
  obtain ⟨n, rfl⟩ : ∃ m, n = m + 1 := ⟨n - 1, by omega⟩
  rw [parseLoop, h]

theorem Continues.step {operator : Operator} {right joined : KeyBindingContextPredicate}
    (hnext : nextOperator source minPrecedence = some operator)
    (hright : Reads (skipWhitespace (source.drop operator.text.length)) (operator.precedence + 1)
      (right, rest))
    (hjoined : operator.constructor predicate right = .ok joined)
    (hrest : Continues rest minPrecedence joined r) :
    Continues source minPrecedence predicate r := by
  intro k n hn hk
  obtain ⟨n, rfl⟩ : ∃ m, n = m + 1 := ⟨n - 1, by omega⟩
  have hlt : rest.length < _ := hright.length_lt
  have hskip := length_skipWhitespace_le (source.drop operator.text.length)
  have hpos := text_ne_nil (nextOperator_spec hnext).1
  have hdrop : (source.drop operator.text.length).length =
    source.length - operator.text.length := List.length_drop ..
  rw [parseLoop, hnext]
  simp only [hright k (by omega), ok_bind, hjoined]
  exact hrest k n (by omega) (by omega)

/-- From an operand that is read in full to the loop behind it. -/
theorem Reads.of_primary
    (hprimary : ∀ n, source.length ≤ n → parsePrimary (parseExpr n) source = .ok (predicate, rest))
    (hlen : rest.length < source.length) (hrest : Continues rest minPrecedence predicate r) :
    Reads source minPrecedence r := by
  intro n hn
  obtain ⟨n, rfl⟩ : ∃ m, n = m + 1 := ⟨n - 1, by omega⟩
  rw [parseExpr, hprimary n (by omega), ok_bind]
  exact hrest n (n + 1) (by omega) (by omega)

theorem parsePrimary_word {word : Text} (hword : IsWord word) (hdelim : Delimited rest)
    (parse : Text → Nat → Parsed) :
    parsePrimary parse (word ++ rest) = .ok (identifier word, skipWhitespace rest) := by
  cases word with
  | nil => exact hword.elim
  | cons c tail =>
    have hopen : isIdentifierChar '(' = false := by
      rw [isIdentifierChar_of_ascii (by decide)]; decide
    have hbang : isIdentifierChar '!' = false := by
      rw [isIdentifierChar_of_ascii (by decide)]; decide
    rw [List.cons_append, parsePrimary]
    rcases hword with ⟨hident, htail⟩ | ⟨hvim, rfl⟩
    · -- the word goes on up to the delimiter
      have hc : isWordChar c = true := by simp [isWordChar, hident]
      have hstop : rest.takeWhile isWordChar = [] ∧ rest.dropWhile isWordChar = rest := by
        cases rest with
        | nil => exact ⟨rfl, rfl⟩
        | cons d rest =>
          have hd : isWordChar d = false := hdelim
          simp [hd]
      have htake : (c :: (tail ++ rest)).takeWhile isWordChar = c :: tail := by
        rw [List.takeWhile_cons_of_pos hc, List.takeWhile_append_of_pos htail, hstop.1,
          List.append_nil]
      have hdrop : (c :: (tail ++ rest)).dropWhile isWordChar = rest := by
        rw [List.dropWhile_cons_of_pos hc, List.dropWhile_append_of_pos htail, hstop.2]
      have hne : c ≠ '(' := by intro h; rw [h, hopen] at hident; cases hident
      have hne' : c ≠ '!' := by intro h; rw [h, hbang] at hident; cases hident
      rw [if_neg hne, if_neg hne', if_pos hident, htake, hdrop]
    · -- an operator character is a word on its own
      have hcases := hvim
      simp only [isVimOperatorChar, Bool.or_eq_true, beq_iff_eq] at hcases
      have hne : c ≠ '(' ∧ c ≠ '!' ∧ isIdentifierChar c = false := by
        rcases hcases with (((rfl | rfl) | rfl) | rfl) | rfl <;>
          exact ⟨by decide, by decide, by rw [isIdentifierChar_of_ascii (by decide)]; decide⟩
      rw [if_neg hne.1, if_neg hne.2.1, if_neg (by simp [hne.2.2]), if_pos hvim]
      rfl

/-- A word is read as an identifier. -/
theorem Reads.word {word : Text} (hword : IsWord word) (hdelim : Delimited rest)
    (hrest : Continues (skipWhitespace rest) minPrecedence (identifier word) r) :
    Reads (word ++ rest) minPrecedence r := by
  apply Reads.of_primary (fun n _ => parsePrimary_word hword hdelim _) _ hrest
  have := length_skipWhitespace_le rest
  have : 0 < word.length := by
    cases word with
    | nil => exact hword.elim
    | cons c tail => simp
  rw [List.length_append]
  omega

/-- What stands in parentheses is read on its own. -/
theorem Reads.paren (hinner : Reads (skipWhitespace source) 0 (predicate, ')' :: rest))
    (hrest : Continues (skipWhitespace rest) minPrecedence predicate r) :
    Reads ('(' :: source) minPrecedence r := by
  have hlt : (')' :: rest).length < _ := hinner.length_lt
  have hskip := length_skipWhitespace_le source
  have hskip' := length_skipWhitespace_le rest
  simp only [List.length_cons] at hlt
  apply Reads.of_primary _ (by rw [List.length_cons]; omega) hrest
  intro n hn
  rw [List.length_cons] at hn
  rw [parsePrimary, if_pos rfl, hinner n (by omega)]
  rfl

/-- A `!` takes the operand that follows. -/
theorem Reads.not (hinner : Reads (skipWhitespace source) precedenceNot (predicate, rest))
    (hrest : Continues rest minPrecedence (not predicate) r) :
    Reads ('!' :: source) minPrecedence r := by
  have hlt : rest.length < _ := hinner.length_lt
  have hskip := length_skipWhitespace_le source
  apply Reads.of_primary _ (by rw [List.length_cons]; omega) hrest
  intro n hn
  rw [List.length_cons] at hn
  rw [parsePrimary, if_neg (by decide), if_pos rfl, hinner n (by omega)]
  rfl

section

omit [CharTables]

/-- No operator binds as tight as a `!`. -/
theorem nextOperator_not (source : Text) : nextOperator source precedenceNot = none := by
  simp [nextOperator, operators, precedenceNot, precedenceChild, precedenceAnd, precedenceOr,
    precedenceEq]

theorem nextOperator_closeParen (rest : Text) (minPrecedence : Nat) :
    nextOperator (')' :: rest) minPrecedence = none := by
  simp [nextOperator, operators, List.isPrefixOf]

theorem nextOperator_nil (minPrecedence : Nat) : nextOperator [] minPrecedence = none := by
  simp [nextOperator, operators, List.isPrefixOf]

end

end KeyBindingContextPredicate

end Gpui
