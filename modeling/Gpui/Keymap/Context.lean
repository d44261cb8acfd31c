import Mathlib

/-! # Keymap: contexts and context predicates

    A key context is what one element of the focused path says about itself: a
    list of identifiers and of `key = value` pairs.  A binding carries a
    predicate over the stack of contexts from the root of the element tree to
    the focused element.

    A `str` is the list of its characters. -/

namespace Gpui

abbrev Text := List Char

/-! ## Key contexts -/

structure ContextEntry where
  key : Text
  value : Option Text
  deriving DecidableEq, Repr

structure KeyContext where
  entries : List ContextEntry
  deriving DecidableEq, Repr

namespace KeyContext

def contains (context : KeyContext) (key : Text) : Bool :=
  context.entries.any (fun entry => entry.key == key)

/-- The value of the first entry for `key`: only that entry is looked at. -/
def get (context : KeyContext) (key : Text) : Option Text :=
  (context.entries.find? (fun entry => entry.key == key)).bind ContextEntry.value

end KeyContext

/-! ## Predicates -/

inductive KeyBindingContextPredicate where
  | identifier (name : Text)
  | equal (left right : Text)
  | notEqual (left right : Text)
  | descendant (parent child : KeyBindingContextPredicate)
  | not (pred : KeyBindingContextPredicate)
  | and (left right : KeyBindingContextPredicate)
  | or (left right : KeyBindingContextPredicate)
  deriving DecidableEq, Repr

namespace KeyBindingContextPredicate

/-- Whether the predicate holds at the last of `contexts`, a prefix of
    `allContexts`.  Negation looks at the whole of `allContexts`. -/
def evalInner : KeyBindingContextPredicate → List KeyContext → List KeyContext → Bool
  | identifier name, contexts, _ =>
      match contexts.getLast? with
      | none         => false
      | some context => context.contains name
  | equal left right, contexts, _ =>
      match contexts.getLast? with
      | none         => false
      | some context => ((context.get left).map (fun value => value == right)).getD false
  | notEqual left right, contexts, _ =>
      match contexts.getLast? with
      | none         => false
      | some context => ((context.get left).map (fun value => value != right)).getD true
  | not pred, contexts, allContexts =>
      match contexts.getLast? with
      | none   => false
      | some _ => !(List.range allContexts.length).any
          (fun i => pred.evalInner (allContexts.take (i + 1)) allContexts)
  | descendant parent child, contexts, allContexts =>
      match contexts.getLast? with
      | none   => false
      | some _ =>
          -- only the first place where the parent holds is tried
          match (List.range (contexts.length - 1)).find?
              (fun i => parent.evalInner (contexts.take (i + 1)) allContexts) with
          | none   => false
          | some i => child.evalInner (contexts.drop (i + 1)) (contexts.drop (i + 1))
  | and left right, contexts, allContexts =>
      match contexts.getLast? with
      | none   => false
      | some _ => left.evalInner contexts allContexts && right.evalInner contexts allContexts
  | or left right, contexts, allContexts =>
      match contexts.getLast? with
      | none   => false
      | some _ => left.evalInner contexts allContexts || right.evalInner contexts allContexts

def eval (predicate : KeyBindingContextPredicate) (contexts : List KeyContext) : Bool :=
  predicate.evalInner contexts contexts

/-- The deepest context at which the predicate holds. -/
def depthOf (predicate : KeyBindingContextPredicate) (contexts : List KeyContext) : Option Nat :=
  (List.range (contexts.length + 1)).reverse.find?
    (fun depth => predicate.evalInner (contexts.take depth) contexts)

/-- Whether every stack of contexts matched by `other` is meant to be matched by
    `self`. -/
def isSuperset (self other : KeyBindingContextPredicate) : Bool :=
  if self = other then true
  else match self, other with
    | or left right, other => left.isSuperset other || right.isSuperset other
    | self, other =>
        match other with
        | descendant _ child => self.isSuperset child
        | and left right     => self.isSuperset left || self.isSuperset right
        | identifier _       => false
        | equal _ _          => false
        | notEqual _ _       => false
        | not _              => false
        | or _ _             => false
termination_by sizeOf self + sizeOf other

/-! ## Evaluation, one operator at a time -/

variable {p q : KeyBindingContextPredicate} {contexts all : List KeyContext}

@[simp] theorem evalInner_nil : p.evalInner [] all = false := by
  cases p <;> simp [evalInner]

theorem ne_nil_of_evalInner (h : p.evalInner contexts all = true) : contexts ≠ [] := by
  intro hnil
  rw [hnil, evalInner_nil] at h
  exact Bool.false_ne_true h

theorem getLast?_of_ne_nil (h : contexts ≠ []) : ∃ context, contexts.getLast? = some context :=
  ⟨contexts.getLast h, List.getLast?_eq_some_getLast h⟩

theorem evalInner_and (p q : KeyBindingContextPredicate) (contexts all : List KeyContext) :
    (and p q).evalInner contexts all =
      (p.evalInner contexts all && q.evalInner contexts all) := by
  by_cases hne : contexts = []
  · simp [hne]
  · obtain ⟨context, hlast⟩ := getLast?_of_ne_nil hne
    simp [evalInner, hlast]

theorem evalInner_or (p q : KeyBindingContextPredicate) (contexts all : List KeyContext) :
    (or p q).evalInner contexts all =
      (p.evalInner contexts all || q.evalInner contexts all) := by
  by_cases hne : contexts = []
  · simp [hne]
  · obtain ⟨context, hlast⟩ := getLast?_of_ne_nil hne
    simp [evalInner, hlast]

/-- The place at which a `>` splits the stack: the first one where the parent
    holds. -/
theorem evalInner_descendant :
    (descendant p q).evalInner contexts all = true ↔
      ∃ i, i + 1 < contexts.length ∧ p.evalInner (contexts.take (i + 1)) all = true ∧
        (∀ j < i, p.evalInner (contexts.take (j + 1)) all = false) ∧
        q.eval (contexts.drop (i + 1)) = true := by
  by_cases hne : contexts = []
  · simp [hne]
  · obtain ⟨context, hlast⟩ := getLast?_of_ne_nil hne
    simp only [evalInner, hlast]
    cases hfind : (List.range (contexts.length - 1)).find?
        (fun i => p.evalInner (contexts.take (i + 1)) all) with
    | none =>
      have hnone : ∀ i < contexts.length - 1, p.evalInner (contexts.take (i + 1)) all = false := by
        simpa [List.find?_eq_none] using hfind
      constructor
      · intro h
        cases h
      · rintro ⟨i, hi, hp, -, -⟩
        rw [hnone i (by omega)] at hp
        exact hp
    | some i =>
      rw [List.find?_range_eq_some] at hfind
      obtain ⟨hp, hi, hfirst⟩ := hfind
      have hi := List.mem_range.mp hi
      constructor
      · intro h
        exact ⟨i, by omega, hp, fun j hj => by simpa using hfirst j hj, h⟩
      · rintro ⟨j, hj, hpj, hfirstj, hq⟩
        -- two first places are one
        have hij : j = i := by
          rcases Nat.lt_trichotomy j i with hlt | heq | hgt
          · have := hfirst j hlt
            simp [hpj] at this
          · exact heq
          · rw [hfirstj i hgt] at hp
            cases hp
        rw [hij] at hq
        exact hq

end KeyBindingContextPredicate

end Gpui

/-! # Keymap: predicates without a negation

    Without `!` a predicate looks at nothing but the stack it is evaluated on, and
    contexts nearer the root do it no harm.  So the first place where the parent of
    a `>` holds is as good as any other. -/

namespace Gpui

namespace KeyBindingContextPredicate

/-- No `!` occurs in the predicate. -/
def Positive : KeyBindingContextPredicate → Prop
  | identifier _                                           => True
  | equal _ _ | notEqual _ _                               => True
  | not _                                                  => False
  | descendant left right | and left right | or left right => left.Positive ∧ right.Positive

/-- The stack splits between two contexts, with `p` above and `q` below. -/
def SplitsAt (p q : KeyBindingContextPredicate) (above below : List KeyContext) : Prop :=
  above ≠ [] ∧ below ≠ [] ∧ p.eval above = true ∧ q.eval below = true

variable {p q : KeyBindingContextPredicate}

/-- Only a negation looks beyond the contexts it is evaluated at. -/
theorem Positive.evalInner_eq : ∀ {p : KeyBindingContextPredicate}, p.Positive →
    ∀ contexts all : List KeyContext, p.evalInner contexts all = p.eval contexts := by
  intro p
  induction p with
  | identifier name => exact fun _ _ _ => rfl
  | equal left right => exact fun _ _ _ => rfl
  | notEqual left right => exact fun _ _ _ => rfl
  | not pred _ => exact fun h => h.elim
  | and left right ihLeft ihRight =>
    intro h contexts all
    rw [eval, evalInner_and, evalInner_and, ihLeft h.1, ihRight h.2, ihLeft h.1, ihRight h.2]
  | or left right ihLeft ihRight =>
    intro h contexts all
    rw [eval, evalInner_or, evalInner_or, ihLeft h.1, ihRight h.2, ihLeft h.1, ihRight h.2]
  | descendant parent child ihParent _ =>
    intro h contexts all
    rw [eval, Bool.eq_iff_iff, evalInner_descendant, evalInner_descendant]
    simp only [ihParent h.1]

/-- The contexts above a stack do no harm to the predicate. -/
def Persists (p : KeyBindingContextPredicate) : Prop :=
  ∀ ancestors contexts : List KeyContext, p.eval contexts = true →
    p.eval (ancestors ++ contexts) = true

/-- **The first match is complete**, as far as the child persists: what the search
    leaves out of the child's stack lies above what it needs. -/
theorem eval_descendant_of_persists (hp : p.Positive) (hq : q.Persists)
    (contexts : List KeyContext) :
    (descendant p q).eval contexts = true ↔
      ∃ above below, above ++ below = contexts ∧ SplitsAt p q above below := by
  rw [eval, evalInner_descendant]
  simp only [hp.evalInner_eq]
  constructor
  · rintro ⟨i, hi, hparent, -, hchild⟩
    refine ⟨contexts.take (i + 1), contexts.drop (i + 1), List.take_append_drop _ _,
      ?_, ?_, hparent, hchild⟩
    · exact List.ne_nil_of_length_pos (by rw [List.length_take]; omega)
    · exact List.ne_nil_of_length_pos (by rw [List.length_drop]; omega)
  · rintro ⟨above, below, rfl, habove, hbelow, hparent, hchild⟩
    have hlength := List.length_pos_of_ne_nil habove
    have hlength' := List.length_pos_of_ne_nil hbelow
    -- some place matches, hence a first one does, no deeper than this split
    have hmatch : p.eval ((above ++ below).take (above.length - 1 + 1)) = true := by
      rw [Nat.sub_add_cancel hlength, List.take_left]
      exact hparent
    let matchesAt := fun i => p.eval ((above ++ below).take (i + 1)) = true
    have hexists : ∃ i, matchesAt i := ⟨_, hmatch⟩
    have hfirst : matchesAt (Nat.find hexists) := Nat.find_spec hexists
    have hle : Nat.find hexists ≤ above.length - 1 := Nat.find_min' hexists hmatch
    refine ⟨Nat.find hexists, ?_, hfirst, fun j hj => ?_, ?_⟩
    · rw [List.length_append]
      omega
    · have hnot : ¬ matchesAt j := Nat.find_min hexists hj
      exact Bool.eq_false_iff.mpr hnot
    · have hdrop : (above ++ below).drop (Nat.find hexists + 1) =
          above.drop (Nat.find hexists + 1) ++ below :=
        List.drop_append_of_le_length (by omega)
      rw [hdrop]
      exact hq _ _ hchild

/-- **Contexts nearer the root do no harm** to a predicate without a negation. -/
theorem Positive.persists : ∀ {p : KeyBindingContextPredicate}, p.Positive → p.Persists := by
  intro p
  induction p with
  | identifier name | equal left right | notEqual left right =>
    intro _ ancestors contexts h
    have hne := ne_nil_of_evalInner h
    -- only the last context counts
    have hlast : (ancestors ++ contexts).getLast? = contexts.getLast? :=
      List.getLast?_append_of_ne_nil _ hne
    simpa only [eval, evalInner, hlast] using h
  | not pred _ => exact fun h => h.elim
  | and left right ihLeft ihRight =>
    intro h ancestors contexts heval
    rw [eval, evalInner_and, Bool.and_eq_true, h.1.evalInner_eq, h.2.evalInner_eq] at heval ⊢
    exact ⟨ihLeft h.1 _ _ heval.1, ihRight h.2 _ _ heval.2⟩
  | or left right ihLeft ihRight =>
    intro h ancestors contexts heval
    rw [eval, evalInner_or, Bool.or_eq_true, h.1.evalInner_eq, h.2.evalInner_eq] at heval ⊢
    exact heval.imp (ihLeft h.1 _ _) (ihRight h.2 _ _)
  | descendant parent child ihParent ihChild =>
    intro h ancestors contexts heval
    have hcomplete := eval_descendant_of_persists h.1 (ihChild h.2)
    obtain ⟨above, below, rfl, habove, hbelow, hparent, hchild⟩ := (hcomplete contexts).mp heval
    refine (hcomplete _).mpr ⟨ancestors ++ above, below, List.append_assoc .., ?_, hbelow, ?_,
      hchild⟩
    · simp [habove]
    · exact ihParent h.1 _ _ hparent

/-- **The search for a split is complete**: contexts prepended to a non-empty stack keep
    a predicate without negation true, and `p > q` holds exactly when the stack splits
    somewhere into a part where `p` holds and one where `q` does. -/
theorem eval_descendant_iff (hp : p.Positive) (hq : q.Positive) :
    (∀ ancestors contexts : List KeyContext, contexts ≠ [] → p.eval contexts = true →
        p.eval (ancestors ++ contexts) = true) ∧
      ∀ contexts : List KeyContext, (descendant p q).eval contexts = true ↔
        ∃ above below, above ++ below = contexts ∧ SplitsAt p q above below :=
  ⟨fun ancestors contexts _ h => hp.persists ancestors contexts h,
    eval_descendant_of_persists hp hq.persists⟩

theorem eval_descendant_iff_words :
    (∀ ancestors contexts : List KeyContext, contexts ≠ [] →
        (identifier ['a']).eval contexts = true →
        (identifier ['a']).eval (ancestors ++ contexts) = true) ∧
      ∀ contexts : List KeyContext,
        (descendant (identifier ['a']) (descendant (identifier ['b']) (identifier ['c']))).eval
            contexts = true ↔
          ∃ above below, above ++ below = contexts ∧
            SplitsAt (identifier ['a']) (descendant (identifier ['b']) (identifier ['c']))
              above below :=
  eval_descendant_iff trivial ⟨trivial, trivial⟩

end KeyBindingContextPredicate

end Gpui
