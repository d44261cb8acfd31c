import Gpui.Keymap.Line

/-! # Keymap: printing a predicate and reading it again

    The text of a predicate is a line, so reading it gives the layered tree over
    that line.  This is the predicate one started from, up to the nesting of
    `&&` and `||` chains, when no `>` stands bare where the parser would group it
    otherwise (`WellBracketed`), and only then. -/

namespace Gpui

open Exec

namespace KeyBindingContextPredicate

/-! ## Chains nested to the left -/

/-- `x op y`, with the chain of `op` at the root of `y` nested to the left. -/
def attach (op : Infix) (x : KeyBindingContextPredicate) :
    KeyBindingContextPredicate → KeyBindingContextPredicate
  | and left right =>
      if op = .and then and (attach op x left) right else op.build x (and left right)
  | or left right =>
      if op = .or then or (attach op x left) right else op.build x (or left right)
  | y => op.build x y

/-- The predicate with its `&&` and `||` chains nested to the left. -/
def nestLeft : KeyBindingContextPredicate → KeyBindingContextPredicate
  | identifier name         => identifier name
  | equal left right        => equal left right
  | notEqual left right     => notEqual left right
  | descendant parent child => descendant parent.nestLeft child.nestLeft
  | not pred                => not pred.nestLeft
  | and left right          => attach .and left.nestLeft right.nestLeft
  | or left right           => attach .or left.nestLeft right.nestLeft

theorem nestLeft_build (op : Infix) (x y : KeyBindingContextPredicate) :
    (op.build x y).nestLeft = attach op x.nestLeft y.nestLeft := by
  cases op with
  | child => cases h : y.nestLeft <;> simp [Infix.build, nestLeft, attach, h]
  | or => rfl
  | and => rfl

/-- Induction along the chain of `op` at the root of a predicate. -/
theorem chain_induction (op : Infix) {motive : KeyBindingContextPredicate → Prop}
    (base : ∀ y, (∀ x, attach op x y = op.build x y) →
      (op ≠ .child → ∀ a b, y ≠ op.build a b) → motive y)
    (step : ∀ left right, op ≠ .child →
      (∀ x, attach op x (op.build left right) = op.build (attach op x left) right) →
      motive left → motive (op.build left right)) (y : KeyBindingContextPredicate) :
    motive y := by
  induction y with
  | and left right ihl _ =>
    cases op with
    | and => exact step left right (by simp) (fun _ => rfl) ihl
    | child => exact base _ (fun _ => rfl) (by simp)
    | or => exact base _ (fun _ => rfl) (by simp [Infix.build])
  | or left right ihl _ =>
    cases op with
    | or => exact step left right (by simp) (fun _ => rfl) ihl
    | child => exact base _ (fun _ => rfl) (by simp)
    | and => exact base _ (fun _ => rfl) (by simp [Infix.build])
  | _ => exact base _ (fun _ => rfl) (by cases op <;> simp [Infix.build])

variable {op : Infix}

theorem attach_assoc (hop : op ≠ .child) (x y z : KeyBindingContextPredicate) :
    attach op (attach op x y) z = attach op x (attach op y z) := by
  induction z using chain_induction op with
  | base z hz _ =>
    -- the chain ends at `z`: attaching `y op z` adds it at the end again
    have hbuild : attach op x (op.build y z) = op.build (attach op x y) z := by
      cases op with
      | child => exact absurd rfl hop
      | or => rfl
      | and => rfl
    rw [hz, hz, hbuild]
  | step left right _ hstep ih =>
    have hbuild : attach op x (op.build (attach op y left) right) =
        op.build (attach op x (attach op y left)) right := by
      cases op with
      | child => exact absurd rfl hop
      | or => rfl
      | and => rfl
    rw [hstep, hstep, hbuild, ih]

variable {x y x' y' : KeyBindingContextPredicate}

theorem build_inj {o : Infix} (h : o.build x y = op.build x' y') : o = op ∧ x = x' ∧ y = y' := by
  cases o <;> cases op <;> simp_all [Infix.build]

theorem exists_attach_eq (op : Infix) (x y : KeyBindingContextPredicate) :
    ∃ a b, attach op x y = op.build a b := by
  induction y using chain_induction op with
  | base y hy _ => exact ⟨x, y, hy x⟩
  | step left right _ hstep _ => exact ⟨attach op x left, right, hstep x⟩

/-! ## Counting the comparisons -/

/-- The number of identifiers and comparisons. -/
def leaves : KeyBindingContextPredicate → Nat
  | identifier _ | equal _ _ | notEqual _ _ => 1
  | not pred                                => pred.leaves
  | descendant left right | and left right | or left right => left.leaves + right.leaves

theorem leaves_pos (p : KeyBindingContextPredicate) : 0 < p.leaves := by
  induction p <;> simp only [leaves] <;> omega

theorem leaves_build (op : Infix) (x y : KeyBindingContextPredicate) :
    (op.build x y).leaves = x.leaves + y.leaves := by
  cases op <;> rfl

theorem leaves_attach (op : Infix) (x y : KeyBindingContextPredicate) :
    (attach op x y).leaves = x.leaves + y.leaves := by
  induction y using chain_induction op with
  | base y hy _ => rw [hy, leaves_build]
  | step left right _ hstep ih => rw [hstep, leaves_build, leaves_build, ih, Nat.add_assoc]

theorem leaves_nestLeft (p : KeyBindingContextPredicate) : p.nestLeft.leaves = p.leaves := by
  induction p with
  | and _ _ ihl ihr | or _ _ ihl ihr => rw [nestLeft, leaves_attach, ihl, ihr, leaves]
  | descendant left right ihl ihr => rw [nestLeft, leaves, ihl, ihr, leaves]
  | not pred ih => rw [nestLeft, leaves, ih, leaves]
  | _ => rfl

/-- A chain of two parts is cut in one way only when the lengths are known. -/
theorem attach_inj (h : attach op x y = attach op x' y') (hleaves : x.leaves = x'.leaves) :
    x = x' ∧ y = y' := by
  induction y using chain_induction op generalizing y' with
  | base y hy hne =>
    cases y' using chain_induction op with
    | base y' hy' _ =>
      rw [hy, hy'] at h
      exact (build_inj h).2
    | step left right hop hstep _ =>
      rw [hy, hstep] at h
      obtain ⟨-, hx, -⟩ := build_inj h
      rw [hx, leaves_attach] at hleaves
      have := leaves_pos left
      omega
  | step left right hop hstep ih =>
    cases y' using chain_induction op with
    | base y' hy' _ =>
      rw [hy', hstep] at h
      obtain ⟨-, hx, -⟩ := build_inj h
      rw [← hx, leaves_attach] at hleaves
      have := leaves_pos left
      omega
    | step left' right' _ hstep' _ =>
      rw [hstep, hstep'] at h
      obtain ⟨-, hattach, hright⟩ := build_inj h
      obtain ⟨hx, hleft⟩ := ih hattach
      exact ⟨hx, by rw [hleft, hright]⟩

/-! ## The meaning of a chain does not depend on its nesting -/

theorem evalInner_attach (op : Infix) (x y : KeyBindingContextPredicate)
    (contexts all : List KeyContext) :
    (attach op x y).evalInner contexts all = (op.build x y).evalInner contexts all := by
  induction y using chain_induction op with
  | base y hy _ => rw [hy]
  | step left right hop hstep ih =>
    rw [hstep]
    cases op with
    | child => exact absurd rfl hop
    | or =>
      simp only [Infix.build, evalInner_or] at ih ⊢
      rw [ih, Bool.or_assoc]
    | and =>
      simp only [Infix.build, evalInner_and] at ih ⊢
      rw [ih, Bool.and_assoc]

theorem evalInner_nestLeft (p : KeyBindingContextPredicate) (contexts all : List KeyContext) :
    p.nestLeft.evalInner contexts all = p.evalInner contexts all := by
  induction p generalizing contexts all with
  | and left right ihl ihr =>
    rw [nestLeft, evalInner_attach, Infix.build, evalInner_and, evalInner_and, ihl, ihr]
  | or left right ihl ihr =>
    rw [nestLeft, evalInner_attach, Infix.build, evalInner_or, evalInner_or, ihl, ihr]
  | descendant parent child ihp ihc => simp only [nestLeft, evalInner, ihp, ihc]
  | not pred ih => simp only [nestLeft, evalInner, ih]
  | _ => rfl

/-! ## Where parentheses are not missing -/

def isDescendant : KeyBindingContextPredicate → Bool
  | descendant _ _ => true
  | _              => false

/-- No `>` is an operand of `&&` or `||`, nor the right operand of a `>`. -/
def WellBracketed : KeyBindingContextPredicate → Prop
  | identifier _ | equal _ _ | notEqual _ _ => True
  | not pred                => pred.WellBracketed
  | descendant parent child =>
      parent.WellBracketed ∧ child.WellBracketed ∧ child.isDescendant = false
  | and left right | or left right =>
      (left.WellBracketed ∧ left.isDescendant = false) ∧
        right.WellBracketed ∧ right.isDescendant = false

/-! ## The line of a predicate -/

namespace Line

/-- What depends on the line alone, and not on how it is grouped. -/
theorem text_congr {t t' : Line} (hfirst : t.first = t'.first) (hrest : t.rest = t'.rest) :
    text t = text t' := by
  rw [text_eq, text_eq, hfirst, hrest]

theorem leaves_value (t : Line) :
    (value t).leaves = (t.operands.map (fun o => o.value.leaves)).sum := by
  induction t with
  | leaf o => simp [value, OpTree.operands, OpTree.first, OpTree.rest]
  | node op left right ihl ihr =>
    rw [value, leaves_build, ihl, ihr, OpTree.operands_node, List.map_append, List.sum_append]

theorem operands_congr {t t' : Line} (hfirst : t.first = t'.first) (hrest : t.rest = t'.rest) :
    t.operands = t'.operands := by
  rw [OpTree.operands, OpTree.operands, hfirst, hrest]

theorem nestLeft_value_join (hop : op ≠ .child) (x y : Line) :
    (value (OpTree.join op x y)).nestLeft = attach op (value x).nestLeft (value y).nestLeft := by
  induction y with
  | leaf o => exact nestLeft_build op _ _
  | node o left right ihl _ =>
    rw [OpTree.join]
    split
    · next heq =>
      subst heq
      rw [value, nestLeft_build, ihl, value, nestLeft_build, attach_assoc hop]
    · exact nestLeft_build op _ _

end Line

variable [CharTables]

/-- `t` is the layered tree over the line `text`, and its value is `p` up to the
    nesting of chains exactly when no parentheses are missing in the text. -/
structure Shows (text : Text) (p : KeyBindingContextPredicate) (t : Line) : Prop where
  layered : t.Layered Infix.precedence
  valid : ∀ o ∈ t.operands, o.Valid
  text_eq : Line.text t = text
  leaves_eq : (Line.value t).leaves = p.leaves
  nestLeft_iff : (Line.value t).nestLeft = p.nestLeft ↔ p.WellBracketed

variable {p : KeyBindingContextPredicate} {t : Line}

/-- A line on its own, or in parentheses, is one operand. -/
theorem Shows.leaf {o : Operand} (hvalid : o.Valid) (hleaves : o.value.leaves = p.leaves)
    (hnest : o.value.nestLeft = p.nestLeft ↔ p.WellBracketed) :
    Shows o.text p (.leaf o) where
  layered := trivial
  valid o' ho' := by
    simp only [OpTree.operands, OpTree.first, OpTree.rest, List.map_nil, List.mem_singleton] at ho'
    rw [ho']
    exact hvalid
  text_eq := rfl
  leaves_eq := hleaves
  nestLeft_iff := hnest

variable {leftText rightText : Text} {left right : KeyBindingContextPredicate} {tl tr : Line}

/-- Another tree over the line of two shown lines and an operator between them. -/
theorem Shows.of_line (hl : Shows leftText left tl) (hr : Shows rightText right tr)
    (hlayered : t.Layered Infix.precedence) (hfirst : t.first = (OpTree.node op tl tr).first)
    (hrest : t.rest = (OpTree.node op tl tr).rest)
    (hnest : (Line.value t).nestLeft = (op.build left right).nestLeft ↔
      (op.build left right).WellBracketed) :
    Shows (leftText ++ op.separator ++ rightText) (op.build left right) t where
  layered := hlayered
  valid o ho := by
    rw [Line.operands_congr hfirst hrest, OpTree.operands_node, List.mem_append] at ho
    exact ho.elim (hl.valid o) (hr.valid o)
  text_eq := by
    rw [Line.text_congr hfirst hrest, Line.text, hl.text_eq, hr.text_eq]
  leaves_eq := by
    rw [Line.leaves_value, Line.operands_congr hfirst hrest, ← Line.leaves_value, Line.value,
      leaves_build, leaves_build, hl.leaves_eq, hr.leaves_eq]
  nestLeft_iff := hnest

/-- Where both sides read as they should, so does the chain. -/
theorem Shows.attach_iff (hl : Shows leftText left tl) (hr : Shows rightText right tr) :
    attach op (Line.value tl).nestLeft (Line.value tr).nestLeft =
        (op.build left right).nestLeft ↔
      left.WellBracketed ∧ right.WellBracketed := by
  rw [nestLeft_build, ← hl.nestLeft_iff, ← hr.nestLeft_iff]
  constructor
  · intro h
    apply attach_inj h
    rw [leaves_nestLeft, leaves_nestLeft, hl.leaves_eq]
  · intro ⟨hleft, hright⟩
    rw [hleft, hright]

/-- **Two operands of `&&` or `||`.**  `hal` and `har` say when the operands bind
    at least as tight as the operator. -/
theorem Shows.logical (op : Infix) (hop : op ≠ .child) (hl : Shows leftText left tl)
    (hr : Shows rightText right tr) (hal : left.WellBracketed ∧ left.isDescendant = false →
      tl.Above Infix.precedence op.precedence)
    (har : right.WellBracketed ∧ right.isDescendant = false →
      tr.Above Infix.precedence op.precedence)
    (hdl : left.isDescendant = true → ¬ tl.Above Infix.precedence op.precedence)
    (hdr : right.isDescendant = true → ¬ tr.Above Infix.precedence op.precedence) :
    ∃ t, Shows (leftText ++ op.separator ++ rightText) (op.build left right) t ∧
      ((op.build left right).WellBracketed → t.Above Infix.precedence op.precedence) := by
  have hwb : (op.build left right).WellBracketed ↔
      (left.WellBracketed ∧ left.isDescendant = false) ∧
        right.WellBracketed ∧ right.isDescendant = false := by
    cases op with
    | child => exact absurd rfl hop
    | or => exact Iff.rfl
    | and => exact Iff.rfl
  by_cases habove : tl.Above Infix.precedence op.precedence ∧
      tr.Above Infix.precedence op.precedence
  · -- the chain goes on: put the two lines side by side
    obtain ⟨hatl, hatr⟩ := habove
    refine ⟨OpTree.join op tl tr, ?_, fun _ => OpTree.above_join tl tr⟩
    apply hl.of_line hr (hl.layered.join (fun _ => Infix.precedence_inj) hr.layered hatl hatr)
      (OpTree.first_join op tl tr) (OpTree.rest_join op tl tr)
    rw [Line.nestLeft_value_join hop, hl.attach_iff hr, hwb]
    constructor
    · intro ⟨hleft, hright⟩
      have hnl : left.isDescendant = false := by
        by_contra h
        exact hdl (by simpa using h) hatl
      have hnr : right.isDescendant = false := by
        by_contra h
        exact hdr (by simpa using h) hatr
      exact ⟨⟨hleft, hnl⟩, hright, hnr⟩
    · intro ⟨hleft, hright⟩
      exact ⟨hleft.1, hright.1⟩
  · -- some operator binds weaker than `op`: it becomes the root
    have hnot : ¬ (op.build left right).WellBracketed := by
      intro h
      obtain ⟨hleft, hright⟩ := hwb.mp h
      exact habove ⟨hal hleft, har hright⟩
    refine ⟨(OpTree.node op tl tr).regroup Infix.precedence, ?_, fun h => absurd h hnot⟩
    have hlayered : ((OpTree.node op tl tr).regroup Infix.precedence).Layered Infix.precedence :=
      OpTree.layered_regroup _
    have hrest : ((OpTree.node op tl tr).regroup Infix.precedence).rest = _ :=
      OpTree.rest_regroup _
    apply hl.of_line hr hlayered (OpTree.first_regroup _) hrest
    apply iff_of_false _ hnot
    intro heq
    -- the root of the value is then an operator other than `op`
    have hroot : ¬ ((OpTree.node op tl tr).regroup Infix.precedence).Above Infix.precedence
        op.precedence := by
      intro h
      rw [hlayered.above_iff, hrest] at h
      apply habove
      rw [hl.layered.above_iff, hr.layered.above_iff]
      exact ⟨fun x hx => h x (by simp [OpTree.rest, hx]),
        fun x hx => h x (by simp [OpTree.rest, hx])⟩
    cases ht : (OpTree.node op tl tr).regroup Infix.precedence with
    | leaf o => rw [ht] at hroot; exact hroot trivial
    | node o l r =>
      rw [ht] at hroot heq
      obtain ⟨a, b, hab⟩ := exists_attach_eq o (Line.value l).nestLeft (Line.value r).nestLeft
      obtain ⟨a', b', hab'⟩ := exists_attach_eq op left.nestLeft right.nestLeft
      rw [Line.value, nestLeft_build, nestLeft_build, hab, hab'] at heq
      rw [(build_inj heq).1] at hroot
      exact hroot (Nat.le_refl _)

/-- **The two sides of a `>`.** -/
theorem Shows.descendant (hl : Shows leftText left tl) (hr : Shows rightText right tr)
    (har : right.WellBracketed ∧ right.isDescendant = false →
      tr.Above Infix.precedence precedenceOr)
    (hdr : right.isDescendant = true → ¬ tr.Above Infix.precedence precedenceOr) :
    ∃ t, Shows (leftText ++ Infix.child.separator ++ rightText) (descendant left right) t ∧
      ¬ t.Above Infix.precedence precedenceOr := by
  have hchild : ∀ (s : Line), s.Above Infix.precedence Infix.child.precedence := by
    intro s
    cases s with
    | leaf o => trivial
    | node o l r =>
      show Infix.child.precedence ≤ o.precedence
      cases o <;> decide
  have hlayered := hl.layered.join (fun _ => Infix.precedence_inj) hr.layered (hchild tl)
    (hchild tr)
  refine ⟨OpTree.join .child tl tr, ?_, ?_⟩
  · apply hl.of_line hr hlayered (OpTree.first_join ..) (OpTree.rest_join ..)
    show _ ↔ left.WellBracketed ∧ right.WellBracketed ∧ right.isDescendant = false
    by_cases habove : tr.Above Infix.precedence precedenceOr
    · -- nothing on the right is taken apart
      have hnr : right.isDescendant = false := by
        by_contra h
        exact hdr (by simpa using h) habove
      have hjoin : OpTree.join .child tl tr = .node .child tl tr :=
        OpTree.join_of_above tl habove
      rw [hjoin, Line.value, nestLeft_build, hl.attach_iff hr]
      simp [hnr]
    · -- the first `>` on the right ends up inside the left side
      apply iff_of_false
      · intro heq
        cases tr with
        | leaf o => exact habove trivial
        | node o l r =>
          have ho : o = .child := by
            cases o with
            | child => rfl
            | or => exact absurd (Nat.le_refl _) habove
            | and => exact absurd (by decide : precedenceOr ≤ precedenceAnd) habove
          subst ho
          have hvalue : (Line.value r).nestLeft = right.nestLeft :=
            (descendant.inj heq).2
          have hle := hr.leaves_eq
          rw [Line.value, leaves_build, ← leaves_nestLeft right, ← hvalue, leaves_nestLeft] at hle
          have := leaves_pos (Line.value l)
          omega
      · intro hboth
        obtain ⟨_, hright⟩ := hboth
        exact habove (har hright)
  · intro h
    have hroot := (hlayered.above_iff _).mp h (.child, tr.first)
      (by rw [OpTree.rest_join]; simp [OpTree.rest])
    exact absurd hroot (show ¬ precedenceOr ≤ Infix.child.precedence by decide)

/-! ## Every predicate is shown -/

/-- The precedence of the operator at the root. -/
def level : KeyBindingContextPredicate → Nat
  | descendant _ _ => precedenceChild
  | or _ _         => precedenceOr
  | and _ _        => precedenceAnd
  | _              => precedenceEq

omit [CharTables] in
theorem le_level_of_isDescendant_eq_false
    (h : p.isDescendant = false) : precedenceOr ≤ p.level := by
  cases p <;>
    simp [isDescendant, level, precedenceOr, precedenceAnd, precedenceEq] at h ⊢

/-- `t` shows the text of `p`; its root binds as tight as that of `p` if no
    parentheses are missing, and weaker than `||` if `p` is a `>`. -/
structure Prints (p : KeyBindingContextPredicate) (t : Line) : Prop where
  shows : Shows p.display p t
  above : p.WellBracketed → t.Above Infix.precedence p.level
  descendant : p.isDescendant = true → ¬ t.Above Infix.precedence precedenceOr

theorem Prints.enclosed (h : Prints p t) :
    Enclosed p.display (Line.value t) := by
  rw [← h.shows.text_eq]
  exact Line.enclosed h.shows.layered h.shows.valid

theorem Prints.of_operand {o : Operand} (hvalid : o.Valid)
    (htext : o.text = p.display) (hleaves : o.value.leaves = p.leaves)
    (hnest : o.value.nestLeft = p.nestLeft ↔ p.WellBracketed) (hroot : p.isDescendant = false) :
    Prints p (.leaf o) where
  shows := htext ▸ Shows.leaf hvalid hleaves hnest
  above _ := trivial
  descendant h := by rw [hroot] at h; cases h

/-- An operand of a chain: the printed predicate, or that in parentheses. -/
theorem Prints.operand (h : Prints p t)
    {needsParens : KeyBindingContextPredicate → Bool} {n : Nat}
    (hparens : ∀ q, needsParens q = true → q.isDescendant = false)
    (hlevel : ∀ q, needsParens q = false → q.isDescendant = false → n ≤ q.level)
    (hn : precedenceOr ≤ n) :
    ∃ t', Shows (operandText needsParens p) p t' ∧
      (p.WellBracketed ∧ p.isDescendant = false → t'.Above Infix.precedence n) ∧
      (p.isDescendant = true → ¬ t'.Above Infix.precedence n) := by
  rw [operandText]
  by_cases hneeds : needsParens p = true
  · rw [if_pos hneeds]
    refine ⟨.leaf ⟨_, Line.value t⟩, Shows.leaf (Operand.valid_paren h.enclosed)
      h.shows.leaves_eq h.shows.nestLeft_iff, fun _ => trivial, ?_⟩
    intro hd
    rw [hparens p hneeds] at hd
    cases hd
  · rw [if_neg hneeds]
    refine ⟨t, h.shows, ?_, ?_⟩
    · intro hclean
      obtain ⟨hwb, hd⟩ := hclean
      exact (h.above hwb).mono (hlevel p (by simpa using hneeds) hd)
    · intro hd habove
      exact h.descendant hd (habove.mono hn)

theorem exists_prints (hp : p.Worded) : ∃ t, Prints p t := by
  induction p with
  | identifier name =>
    exact ⟨_, Prints.of_operand (Operand.valid_identifier hp) (by rw [display]) rfl
      (iff_of_true rfl trivial) rfl⟩
  | equal left right =>
    exact ⟨_, Prints.of_operand (Operand.valid_equal hp.1 hp.2) (by rw [display]) rfl
      (iff_of_true rfl trivial) rfl⟩
  | notEqual left right =>
    exact ⟨_, Prints.of_operand (Operand.valid_notEqual hp.1 hp.2) (by rw [display]) rfl
      (iff_of_true rfl trivial) rfl⟩
  | not pred ih =>
    obtain ⟨t, ht⟩ := ih hp
    by_cases hident : ∃ name, pred = identifier name
    · obtain ⟨name, rfl⟩ := hident
      exact ⟨_, Prints.of_operand (Operand.valid_notWord hp) (by rw [display]) rfl
        (iff_of_true rfl trivial) rfl⟩
    · have hdisplay := display_not (fun name h => hident ⟨name, h⟩)
      refine ⟨_, Prints.of_operand (Operand.valid_notParen ht.enclosed) hdisplay.symm
        ht.shows.leaves_eq ?_ rfl⟩
      show not (Line.value t).nestLeft = not pred.nestLeft ↔ _
      rw [not.injEq]
      exact ht.shows.nestLeft_iff
  | descendant parent child ihp ihc =>
    obtain ⟨tl, htl⟩ := ihp hp.1
    obtain ⟨tr, htr⟩ := ihc hp.2
    obtain ⟨t, ht, hroot⟩ := htl.shows.descendant htr.shows
      (fun hclean => (htr.above hclean.1).mono (le_level_of_isDescendant_eq_false hclean.2))
      htr.descendant
    refine ⟨t, by rw [display]; exact ht, ?_, fun _ => hroot⟩
    intro _
    cases t with
    | leaf o => trivial
    | node o l r =>
      show precedenceChild ≤ o.precedence
      cases o <;> decide
  | and left right ihl ihr =>
    obtain ⟨tl, htl⟩ := ihl hp.1
    obtain ⟨tr, htr⟩ := ihr hp.2
    have hparens : ∀ q : KeyBindingContextPredicate, q.isOr = true → q.isDescendant = false := by
      intro q; cases q <;> simp [isOr, isDescendant]
    have hlevel : ∀ q : KeyBindingContextPredicate, q.isOr = false → q.isDescendant = false →
        Infix.and.precedence ≤ q.level := by
      intro q; cases q <;> simp [isOr, isDescendant, level] <;> decide
    obtain ⟨tl', hl, hal, hdl⟩ := htl.operand hparens hlevel (by decide)
    obtain ⟨tr', hr, har, hdr⟩ := htr.operand hparens hlevel (by decide)
    obtain ⟨t, ht, habove⟩ := hl.logical .and (by simp) hr hal har hdl hdr
    exact ⟨t, by rw [display_and]; exact ht, habove, fun h => by cases h⟩
  | or left right ihl ihr =>
    obtain ⟨tl, htl⟩ := ihl hp.1
    obtain ⟨tr, htr⟩ := ihr hp.2
    have hparens : ∀ q : KeyBindingContextPredicate, q.isAnd = true → q.isDescendant = false := by
      intro q; cases q <;> simp [isAnd, isDescendant]
    have hlevel : ∀ q : KeyBindingContextPredicate, q.isAnd = false → q.isDescendant = false →
        Infix.or.precedence ≤ q.level := by
      intro q; cases q <;> simp [isAnd, isDescendant, level] <;> decide
    obtain ⟨tl', hl, hal, hdl⟩ := htl.operand hparens hlevel (by decide)
    obtain ⟨tr', hr, har, hdr⟩ := htr.operand hparens hlevel (by decide)
    obtain ⟨t, ht, habove⟩ := hl.logical .or (by simp) hr hal har hdl hdr
    exact ⟨t, by rw [display_or]; exact ht, habove, fun h => by cases h⟩

/-! ## Printing and reading -/

/-- **Printing a predicate and reading it again.**  The text of a parsed predicate
    can always be parsed.  What is read evaluates like the predicate when no
    parentheses are missing in the text, and it is the predicate, up to the
    nesting of `&&` and `||` chains, exactly in that case. -/
theorem display_parse {source : Text} {p : KeyBindingContextPredicate} (h : parse source = .ok p) :
    ∃ q, parse p.display = .ok q ∧
      (p.WellBracketed → ∀ contexts, q.eval contexts = p.eval contexts) ∧
      (q.nestLeft = p.nestLeft ↔ p.WellBracketed) := by
  have hworded : p.Worded := (parse_spec source).of_ok h
  obtain ⟨t, ht⟩ := exists_prints hworded
  refine ⟨Line.value t, ?_, ?_, ht.shows.nestLeft_iff⟩
  · rw [← ht.shows.text_eq]
    exact Line.parse_eq ht.shows.layered ht.shows.valid
  · intro hwb contexts
    have hnest := ht.shows.nestLeft_iff.mpr hwb
    rw [eval, eval, ← evalInner_nestLeft, hnest, evalInner_nestLeft]

omit [CharTables] in
/-- `a && b > c` needs no parentheses: it is read with its meaning. -/
theorem display_parse_childOfAnd :
    ∃ p q, @parse asciiTables ['a', '&', '&', 'b', ' ', '>', 'c'] = .ok p ∧
      @parse asciiTables p.display = .ok q ∧ p.WellBracketed ∧
      ∀ contexts, q.eval contexts = p.eval contexts := by
  have hread : @parse asciiTables ['a', '&', '&', 'b', ' ', '>', 'c'] =
      .ok (descendant (and (identifier ['a']) (identifier ['b'])) (identifier ['c'])) := by decide
  have hwb : (descendant (and (identifier ['a']) (identifier ['b']))
      (identifier ['c'])).WellBracketed := by simp [WellBracketed, isDescendant]
  obtain ⟨q, hq, heval, -⟩ := @display_parse asciiTables _ _ hread
  exact ⟨_, q, hread, hq, hwb, heval hwb⟩

omit [CharTables] in
/-- `(a > b) || c` is printed without its parentheses, and read as
    `a > (b || c)`: the one holds in a context `c`, the other does not. -/
theorem display_parse_regroups :
    ¬ ∀ [CharTables] (source : Text) (p : KeyBindingContextPredicate), parse source = .ok p →
      ∃ q, parse p.display = .ok q ∧ ∀ contexts, q.eval contexts = p.eval contexts := by
  intro hround
  have hread : @parse asciiTables
      ['(', 'a', ' ', '>', ' ', 'b', ')', ' ', '|', '|', ' ', 'c'] =
      .ok (or (descendant (identifier ['a']) (identifier ['b'])) (identifier ['c'])) := by decide
  obtain ⟨q, hq, heval⟩ := @hround asciiTables _ _ hread
  have htext : (or (descendant (identifier ['a']) (identifier ['b'])) (identifier ['c'])).display =
      ['a', ' ', '>', ' ', 'b', ' ', '|', '|', ' ', 'c'] := by
    simp [display_or, operandText, isAnd, display]
  have hagain : @parse asciiTables ['a', ' ', '>', ' ', 'b', ' ', '|', '|', ' ', 'c'] =
      .ok (descendant (identifier ['a']) (or (identifier ['b']) (identifier ['c']))) := by decide
  rw [htext, hagain] at hq
  cases hq
  exact absurd (heval [⟨[⟨['c'], none⟩]⟩]) (by decide)

end KeyBindingContextPredicate

end Gpui
