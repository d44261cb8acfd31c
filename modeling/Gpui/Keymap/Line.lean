import Gpui.Keymap.Reading

/-! # Keymap: lines of operands and infix operators

    Printed text is a line: operands, each read as one predicate, between the
    operators `>`, `||` and `&&`.  The parser groups a line as the layered tree
    over it. -/

namespace Gpui

variable [CharTables]

namespace KeyBindingContextPredicate

/-! ## Infix operators -/

/-- The operators that join predicates. -/
inductive Infix where
  | child
  | or
  | and
  deriving DecidableEq, Repr

namespace Infix

/-- Its entry in the table of the parser. -/
def operator : Infix → Operator
  | child => ⟨['>'], precedenceChild, newChild⟩
  | or    => ⟨['|', '|'], precedenceOr, newOr⟩
  | and   => ⟨['&', '&'], precedenceAnd, newAnd⟩

def precedence (op : Infix) : Nat :=
  op.operator.precedence

def build : Infix → KeyBindingContextPredicate → KeyBindingContextPredicate →
    KeyBindingContextPredicate
  | child => descendant
  | or    => KeyBindingContextPredicate.or
  | and   => KeyBindingContextPredicate.and

def separator (op : Infix) : Text :=
  ' ' :: (op.operator.text ++ [' '])

section

omit [CharTables]

theorem precedence_lt (op : Infix) : op.precedence < precedenceEq := by
  cases op <;> decide

theorem precedence_inj {o op : Infix} (h : o.precedence = op.precedence) : o = op := by
  cases o <;> cases op <;> first | rfl | (revert h; decide)

theorem constructor_eq (op : Infix) (left right : KeyBindingContextPredicate) :
    op.operator.constructor left right = .ok (op.build left right) := by
  cases op <;> rfl

theorem begins_text (op : Infix) : Begins op.operator.text := by
  cases op
  · exact ⟨'>', [], rfl, by decide⟩
  · exact ⟨'|', ['|'], rfl, by decide⟩
  · exact ⟨'&', ['&'], rfl, by decide⟩

theorem nextOperator_eq (op : Infix) (source : Text) (minPrecedence : Nat) :
    nextOperator (op.operator.text ++ ' ' :: source) minPrecedence =
      if minPrecedence ≤ op.precedence then some op.operator else none := by
  cases op with
  | child =>
    by_cases h : minPrecedence ≤ precedenceChild <;>
      simp [nextOperator, operators, operator, precedence, List.isPrefixOf, h]
  | or =>
    by_cases h : minPrecedence ≤ precedenceOr <;>
      simp [nextOperator, operators, operator, precedence, List.isPrefixOf, h]
  | and =>
    by_cases h : minPrecedence ≤ precedenceAnd <;>
      simp [nextOperator, operators, operator, precedence, List.isPrefixOf, h]

end

end Infix

/-! ## Operands -/

/-- A piece of text and the predicate it is read as. -/
structure Operand where
  text : Text
  value : KeyBindingContextPredicate

/-- Behind a delimiter the parser has read the whole text, as the value. -/
structure Operand.Valid (o : Operand) : Prop where
  begins : Begins o.text
  reads : ∀ {rest minPrecedence r}, Delimited rest → minPrecedence ≤ precedenceEq →
    Continues (skipWhitespace rest) minPrecedence o.value r →
    Reads (o.text ++ rest) minPrecedence r

variable {word left right : Text}

theorem Operand.valid_identifier (h : IsWord word) :
    Operand.Valid ⟨word, identifier word⟩ where
  begins := h.begins
  reads hdelim _ hcont := Reads.word h hdelim hcont

/-- A word behind a tight operator is read on its own. -/
theorem reads_word_tight {rest : Text} (h : IsWord word) (hdelim : Delimited rest) :
    Reads (word ++ rest) precedenceNot (identifier word, skipWhitespace rest) :=
  Reads.word h hdelim (Continues.stop (nextOperator_not _))

theorem Operand.valid_comparison (hl : IsWord left) (hr : IsWord right)
    (operator : Operator) {value : KeyBindingContextPredicate}
    (hbegins : Begins operator.text) (hprec : operator.precedence = precedenceEq)
    (hnext : ∀ source minPrecedence, minPrecedence ≤ precedenceEq →
      nextOperator (operator.text ++ ' ' :: source) minPrecedence = some operator)
    (hvalue : operator.constructor (identifier left) (identifier right) = .ok value) :
    Operand.Valid ⟨left ++ (' ' :: (operator.text ++ [' '])) ++ right, value⟩ where
  begins := (hl.begins.append _).append _
  reads {rest minPrecedence r} hdelim hmin hcont := by
    show Reads (left ++ (' ' :: (operator.text ++ [' '])) ++ right ++ rest) minPrecedence r
    have htext : left ++ (' ' :: (operator.text ++ [' '])) ++ right ++ rest =
        left ++ ' ' :: (operator.text ++ ' ' :: (right ++ rest)) := by simp
    rw [htext]
    apply Reads.word hl (delimited_space _)
    rw [skipWhitespace_space (hbegins.append _)]
    apply Continues.step (hnext _ _ hmin) _ hvalue hcont
    rw [List.drop_left, skipWhitespace_space (hr.begins.append _), hprec]
    exact reads_word_tight hr hdelim

theorem Operand.valid_equal (hl : IsWord left) (hr : IsWord right) :
    Operand.Valid ⟨left ++ [' ', '=', '=', ' '] ++ right, equal left right⟩ :=
  Operand.valid_comparison hl hr ⟨['=', '='], precedenceEq, newEq⟩
    ⟨'=', ['='], rfl, by decide⟩ rfl
    (by
      intro source minPrecedence hmin
      simp [nextOperator, operators, List.isPrefixOf, List.find?, hmin])
    rfl

theorem Operand.valid_notEqual (hl : IsWord left) (hr : IsWord right) :
    Operand.Valid ⟨left ++ [' ', '!', '=', ' '] ++ right, notEqual left right⟩ :=
  Operand.valid_comparison hl hr ⟨['!', '='], precedenceEq, newNeq⟩
    ⟨'!', ['='], rfl, by decide⟩ rfl
    (by
      intro source minPrecedence hmin
      simp [nextOperator, operators, List.isPrefixOf, List.find?, hmin])
    rfl

theorem Operand.valid_notWord (h : IsWord word) :
    Operand.Valid ⟨'!' :: word, .not (identifier word)⟩ where
  begins := ⟨'!', word, rfl, by decide⟩
  reads {rest minPrecedence r} hdelim _ hcont := by
    show Reads ('!' :: (word ++ rest)) minPrecedence r
    apply Reads.not _ hcont
    rw [skipWhitespace_of_begins (h.begins.append _)]
    exact reads_word_tight h hdelim

/-- Text that is read in full in front of a `)`. -/
def Enclosed (text : Text) (value : KeyBindingContextPredicate) : Prop :=
  Begins text ∧ ∀ rest, Reads (text ++ ')' :: rest) 0 (value, ')' :: rest)

theorem Enclosed.reads {text : Text} {value : KeyBindingContextPredicate}
    (h : Enclosed text value) {rest : Text} {minPrecedence : Nat}
    {r : KeyBindingContextPredicate × Text}
    (hcont : Continues (skipWhitespace rest) minPrecedence value r) :
    Reads (['('] ++ text ++ [')'] ++ rest) minPrecedence r := by
  have htext : ['('] ++ text ++ [')'] ++ rest = '(' :: (text ++ ')' :: rest) := by simp
  rw [htext]
  apply Reads.paren _ hcont
  rw [skipWhitespace_of_begins (h.1.append _)]
  exact h.2 rest

theorem Operand.valid_paren {text : Text} {value : KeyBindingContextPredicate}
    (h : Enclosed text value) : Operand.Valid ⟨['('] ++ text ++ [')'], value⟩ where
  begins := ⟨'(', text ++ [')'], by simp, by decide⟩
  reads _ _ hcont := h.reads hcont

theorem Operand.valid_notParen {text : Text} {value : KeyBindingContextPredicate}
    (h : Enclosed text value) :
    Operand.Valid ⟨['!', '('] ++ text ++ [')'], .not value⟩ where
  begins := ⟨'!', '(' :: (text ++ [')']), by simp, by decide⟩
  reads {rest minPrecedence r} _ _ hcont := by
    show Reads ('!' :: (['('] ++ text ++ [')'] ++ rest)) minPrecedence r
    apply Reads.not _ hcont
    exact h.reads (Continues.stop (nextOperator_not _))

/-! ## Lines -/

abbrev Line := OpTree Infix Operand

namespace Line

def text : Line → Text
  | .leaf o             => o.text
  | .node op left right => text left ++ op.separator ++ text right

def value : Line → KeyBindingContextPredicate
  | .leaf o             => o.value
  | .node op left right => op.build (value left) (value right)

omit [CharTables] in
theorem text_eq (t : Line) :
    text t = t.first.text ++ t.rest.flatMap (fun x => x.1.separator ++ x.2.text) := by
  induction t with
  | leaf o => simp [text, OpTree.first, OpTree.rest]
  | node op left right ihl ihr => simp [text, OpTree.first, OpTree.rest, ihl, ihr]

theorem begins {t : Line} (hvalid : ∀ o ∈ t.operands, o.Valid) : Begins (text t) := by
  rw [text_eq]
  exact (hvalid _ (by simp [OpTree.operands])).begins.append _

/-- **The parser groups a line in layers**: from a layered tree whose operands are
    read as their values, it reads the value of the tree. -/
theorem reads {t : Line} (ht : t.Layered Infix.precedence) (hvalid : ∀ o ∈ t.operands, o.Valid)
    {rest : Text} {minPrecedence : Nat} {r : KeyBindingContextPredicate × Text}
    (hdelim : Delimited rest) (habove : t.Above Infix.precedence minPrecedence)
    (hmin : minPrecedence ≤ precedenceEq)
    (hstop : ∀ x ∈ t.rest, nextOperator (skipWhitespace rest) (x.1.precedence + 1) = none)
    (hcont : Continues (skipWhitespace rest) minPrecedence (value t) r) :
    Reads (text t ++ rest) minPrecedence r := by
  induction t generalizing rest minPrecedence r with
  | leaf o => exact (hvalid o (by simp [OpTree.operands, OpTree.first])).reads hdelim hmin hcont
  | node op left right ihl ihr =>
    obtain ⟨hl, hr, hal, har⟩ := ht
    rw [OpTree.operands_node] at hvalid
    have hvl : ∀ o ∈ left.operands, o.Valid := fun o ho => hvalid o (List.mem_append_left _ ho)
    have hvr : ∀ o ∈ right.operands, o.Valid := fun o ho => hvalid o (List.mem_append_right _ ho)
    have htext : text (.node op left right) ++ rest =
        text left ++ ' ' :: (op.operator.text ++ ' ' :: (text right ++ rest)) := by
      simp [text, Infix.separator]
    have hskip : skipWhitespace (' ' :: (op.operator.text ++ ' ' :: (text right ++ rest))) =
        op.operator.text ++ ' ' :: (text right ++ rest) :=
      skipWhitespace_space (op.begins_text.append _)
    rw [htext]
    apply ihl hl hvl (delimited_space _) (hal.mono habove) hmin
    · -- the operators of the left operand bind at least as tight
      intro x hx
      have hle := (hl.above_iff _).mp hal x hx
      rw [hskip, Infix.nextOperator_eq, if_neg (by omega)]
    · rw [hskip]
      apply Continues.step _ _ (op.constructor_eq _ _) hcont
      · rw [Infix.nextOperator_eq, if_pos (show minPrecedence ≤ op.precedence from habove)]
      · rw [List.drop_left, skipWhitespace_space ((begins hvr).append _)]
        apply ihr hr hvr hdelim har op.precedence_lt
        · intro x hx
          exact hstop x (by simp [OpTree.rest, hx])
        · exact Continues.stop (hstop (op, right.first) (by simp [OpTree.rest]))

theorem enclosed {t : Line} (ht : t.Layered Infix.precedence)
    (hvalid : ∀ o ∈ t.operands, o.Valid) : Enclosed (text t) (value t) := by
  refine ⟨begins hvalid, fun rest => ?_⟩
  have hskip : skipWhitespace (')' :: rest) = ')' :: rest :=
    skipWhitespace_of_begins ⟨')', rest, rfl, by decide⟩
  apply reads ht hvalid (delimited_closeParen rest) ((ht.above_iff 0).mpr (by simp)) (by simp)
  · intro x _
    rw [hskip, nextOperator_closeParen]
  · rw [hskip]
    exact Continues.stop (nextOperator_closeParen _ _)

theorem parse_eq {t : Line} (ht : t.Layered Infix.precedence)
    (hvalid : ∀ o ∈ t.operands, o.Valid) : parse (text t) = .ok (value t) := by
  have hreads : Reads (text t) 0 (value t, []) := by
    have hdelim : Delimited [] := trivial
    rw [← List.append_nil (text t)]
    apply reads ht hvalid hdelim ((ht.above_iff 0).mpr (by simp)) (by simp)
    · intro x _
      exact nextOperator_nil _
    · exact Continues.stop (nextOperator_nil _)
  rw [parse, skipWhitespace_of_begins (begins hvalid)]
  simp only [hreads _ (Nat.lt_succ_self _)]
  rfl

end Line

end KeyBindingContextPredicate

end Gpui
