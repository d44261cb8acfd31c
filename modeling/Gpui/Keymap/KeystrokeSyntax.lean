import Gpui.Keymap.Binding

/-! # Which texts are keystrokes

    The documented syntax is `[modifier-]*key[->key_char]`, or modifiers alone, of which one
    is then the key.  The parser accepts all of it, and more: it takes an empty component
    behind the first key of a text that ends with a dash for the key `-`, whatever else there
    is, and reads on behind the typed character. -/

namespace Gpui

open List

namespace Keystroke

variable {os : TargetOs}

/-! ### Modifiers -/

/-- The component names a modifier. -/
def isModifier (os : TargetOs) (component : Text) : Bool :=
  (setModifier os component Modifiers.none).isSome

theorem setModifier_isSome (os : TargetOs) (component : Text) (modifiers : Modifiers) :
    (setModifier os component modifiers).isSome = isModifier os component := by
  unfold isModifier setModifier
  split_ifs <;> rfl

theorem setModifier_none {component : Text} (h : isModifier os component = false)
    (modifiers : Modifiers) : setModifier os component modifiers = none := by
  rw [← setModifier_isSome os component modifiers, Option.isSome_eq_false_iff,
    Option.isNone_iff_eq_none] at h
  exact h

/-- The modifiers with those that are named. -/
def named (os : TargetOs) (names : List Text) (modifiers : Modifiers) : Modifiers :=
  names.foldl (fun modifiers name => (setModifier os name modifiers).getD modifiers) modifiers

/-! ### The documented syntax -/

/-- The components are of the documented syntax and mean the keystroke: modifiers and exactly
    one key, every component of which is in the keystroke. -/
inductive Denotes (os : TargetOs) : List Text → Keystroke → Prop where
  | key (names : List Text) (key : Text) :
      (∀ name ∈ names, isModifier os name = true) → isModifier os key = false →
      Denotes os (names ++ [key])
        ⟨if isCapital key then { named os names Modifiers.none with shift := true }
          else named os names Modifiers.none, asciiLowercase key, none⟩
  /-- The key `-` is two empty components. -/
  | dash (names : List Text) :
      (∀ name ∈ names, isModifier os name = true) →
      Denotes os (names ++ [[], []]) ⟨named os names Modifiers.none, ['-'], none⟩
  | keyChar (names : List Text) (key keyChar : Text) :
      (∀ name ∈ names, isModifier os name = true) → isModifier os key = false → keyChar ≠ [] →
      Denotes os (names ++ [key, '>' :: keyChar])
        ⟨named os names Modifiers.none, key, some keyChar⟩
  /-- Modifiers alone, of which one is the key. -/
  | modifiers (names : List Text) (taken : Text × Modifiers) :
      (∀ name ∈ names, isModifier os name = true) →
      modifierAsKey (named os names Modifiers.none) = some taken →
      Denotes os names ⟨taken.2, taken.1, none⟩

/-! ### What is accepted beyond it -/

/-- The loop comes to its end with a key that it has. -/
inductive Continues (os : TargetOs) (endsWithDash : Bool) : List Text → Prop where
  | done : Continues os endsWithDash []
  | name {name : Text} {rest : List Text} : isModifier os name = true →
      Continues os endsWithDash rest → Continues os endsWithDash (name :: rest)
  | key {key : Text} : isModifier os key = false → Continues os endsWithDash [key]
  | dash {key : Text} (rest : List Text) : isModifier os key = false → endsWithDash = true →
      Continues os endsWithDash (key :: [] :: rest)
  | keyChar {key keyChar : Text} {rest : List Text} : isModifier os key = false →
      keyChar ≠ [] → Continues os endsWithDash rest →
      Continues os endsWithDash (key :: ('>' :: keyChar) :: rest)

/-- A component behind the modifiers is lost: there is an empty component behind the key of
    a text that ends with a dash, and not just the key `-`; or there are components behind
    the typed character, and the loop comes to its end with them. -/
inductive Overruns (os : TargetOs) (endsWithDash : Bool) : List Text → Prop where
  | dash (names : List Text) (key : Text) (rest : List Text) :
      (∀ name ∈ names, isModifier os name = true) → isModifier os key = false →
      endsWithDash = true → (key ≠ [] ∨ rest ≠ []) →
      Overruns os endsWithDash (names ++ key :: [] :: rest)
  | keyChar (names : List Text) (key keyChar : Text) (rest : List Text) :
      (∀ name ∈ names, isModifier os name = true) → isModifier os key = false →
      keyChar ≠ [] → rest ≠ [] → Continues os endsWithDash rest →
      Overruns os endsWithDash (names ++ key :: ('>' :: keyChar) :: rest)

/-! ### The loop, case by case -/

/-- A component that gives a typed character. -/
theorem arrow_iff {next : Text} :
    (1 < next.length && next.head? == some '>') = true ↔
      ∃ keyChar, keyChar ≠ [] ∧ next = '>' :: keyChar := by
  cases next with
  | nil => simp
  | cons c keyChar =>
    rw [Bool.and_eq_true, decide_eq_true_eq, length_cons, head?_cons, beq_iff_eq,
      Option.some.injEq, Nat.lt_add_left_iff_pos, length_pos_iff]
    constructor
    · intro ⟨hne, heq⟩
      exact ⟨keyChar, hne, by rw [heq]⟩
    · intro ⟨keyChar', hne, heq⟩
      cases heq
      exact ⟨hne, rfl⟩

section Loop

variable (ends : Bool) (read : Parsing)

theorem parseComponents_modifier {component : Text} {modifiers : Modifiers} (rest : List Text)
    (h : setModifier os component read.modifiers = some modifiers) :
    parseComponents os ends (component :: rest) read =
      parseComponents os ends rest { read with modifiers := modifiers } := by
  cases rest with
  | nil => simp [parseComponents, h]
  | cons next rest => simp [parseComponents, h]

theorem parseComponents_names {names : List Text}
    (h : ∀ name ∈ names, isModifier os name = true) (rest : List Text) :
    parseComponents os ends (names ++ rest) read =
      parseComponents os ends rest { read with modifiers := named os names read.modifiers } := by
  induction names generalizing read with
  | nil => rfl
  | cons name names ih =>
    have hname : (setModifier os name read.modifiers).isSome = true := by
      rw [setModifier_isSome]
      exact h name (by simp)
    obtain ⟨modifiers, hmodifiers⟩ := Option.isSome_iff_exists.1 hname
    rw [cons_append, parseComponents_modifier ends read _ hmodifiers,
      ih _ (fun other hother => h other (by simp [hother]))]
    simp [named, hmodifiers]

variable {component : Text} (h : isModifier os component = false)

include h in
theorem parseComponents_last :
    parseComponents os ends [component] read = some (read.last component) := by
  simp [parseComponents, setModifier_none h]

include h in
theorem parseComponents_dash (rest : List Text) (hends : ends = true) :
    parseComponents os ends (component :: [] :: rest) read =
      some { read with key := some ['-'] } := by
  simp [parseComponents, setModifier_none h, hends]

include h in
theorem parseComponents_keyChar {keyChar : Text} (rest : List Text) (hne : keyChar ≠ []) :
    parseComponents os ends (component :: ('>' :: keyChar) :: rest) read =
      parseComponents os ends rest
        { read with key := some component, keyChar := some keyChar } := by
  simp [parseComponents, setModifier_none h, length_pos_iff.2 hne]

include h in
/-- Behind a key there is nothing else. -/
theorem parseComponents_error {next : Text} (rest : List Text)
    (hdash : ¬ (next = [] ∧ ends = true)) (hchar : ∀ keyChar ≠ [], next ≠ '>' :: keyChar) :
    parseComponents os ends (component :: next :: rest) read = none := by
  have hnext : ¬ ((next.isEmpty && ends) = true) := by
    simpa using hdash
  have harrow : ¬ ((1 < next.length && next.head? == some '>') = true) := by
    rw [arrow_iff]
    intro ⟨keyChar, hne, heq⟩
    exact hchar keyChar hne heq
  simp only [parseComponents, setModifier_none h]
  rw [if_neg hnext, if_neg harrow]

end Loop

/-- Modifiers come first: the rest is empty or starts with another component. -/
theorem exists_names (os : TargetOs) (components : List Text) :
    ∃ names rest, components = names ++ rest ∧ (∀ name ∈ names, isModifier os name = true) ∧
      (rest = [] ∨ ∃ key tail, rest = key :: tail ∧ isModifier os key = false) := by
  refine ⟨components.takeWhile (isModifier os), components.dropWhile (isModifier os),
    takeWhile_append_dropWhile.symm, fun name hname => mem_takeWhile_imp hname, ?_⟩
  cases hrest : components.dropWhile (isModifier os) with
  | nil => exact .inl rfl
  | cons key tail =>
    refine .inr ⟨key, tail, rfl, ?_⟩
    have hhead := head_dropWhile_not (isModifier os) (l := components) (by rw [hrest]; simp)
    simpa [hrest] using hhead

/-- What stands behind a key. -/
theorem next_cases (ends : Bool) (next : Text) :
    (next = [] ∧ ends = true) ∨ (∃ keyChar, keyChar ≠ [] ∧ next = '>' :: keyChar) ∨
      (¬ (next = [] ∧ ends = true) ∧ ∀ keyChar ≠ [], next ≠ '>' :: keyChar) := by
  by_cases hdash : next = [] ∧ ends = true
  · exact .inl hdash
  · by_cases hchar : ∃ keyChar, keyChar ≠ [] ∧ next = '>' :: keyChar
    · exact .inr (.inl hchar)
    · refine .inr (.inr ⟨hdash, ?_⟩)
      intro keyChar hne heq
      exact hchar ⟨keyChar, hne, heq⟩

/-- The loop comes to its end, whatever it has read before. -/
theorem continues_iff (ends : Bool) (components : List Text) (read : Parsing) :
    Continues os ends components ↔ (parseComponents os ends components read).isSome = true := by
  constructor
  · intro h
    induction h generalizing read with
    | done => rfl
    | @name name rest hname _ ih =>
      rw [← setModifier_isSome os name read.modifiers] at hname
      obtain ⟨modifiers, hmodifiers⟩ := Option.isSome_iff_exists.1 hname
      rw [parseComponents_modifier ends read rest hmodifiers]
      exact ih _
    | key hkey =>
      rw [parseComponents_last ends read hkey]
      rfl
    | dash rest hkey hends =>
      rw [parseComponents_dash ends read hkey rest hends]
      rfl
    | @keyChar key keyChar rest hkey hne _ ih =>
      rw [parseComponents_keyChar ends read hkey rest hne]
      exact ih _
  · intro h
    have hname : ∀ {component : Text} {modifiers modifiers' : Modifiers},
        setModifier os component modifiers = some modifiers' → isModifier os component = true := by
      intro component modifiers modifiers' heq
      rw [← setModifier_isSome os component modifiers, heq]
      rfl
    have hkey : ∀ {component : Text} {modifiers : Modifiers},
        setModifier os component modifiers = none → isModifier os component = false := by
      intro component modifiers heq
      rw [← setModifier_isSome os component modifiers, heq]
      rfl
    -- along the recursion of the loop
    fun_induction parseComponents os ends components read with
    | case1 => exact .done
    | case2 read component modifiers heq => exact .name (hname heq) .done
    | case3 read component heq => exact .key (hkey heq)
    | case4 component next rest read modifiers heq ih => exact .name (hname heq) (ih h)
    | case5 component next rest read heq hdash =>
      rw [Bool.and_eq_true, List.isEmpty_iff] at hdash
      rw [hdash.1]
      exact .dash rest (hkey heq) hdash.2
    | case6 component next rest read heq _ harrow ih =>
      obtain ⟨keyChar, hne, rfl⟩ := arrow_iff.1 harrow
      exact .keyChar (hkey heq) hne (ih h)
    | case7 => cases h

/-! ### What is read -/

variable {source : Text} {k : Keystroke} {ends : Bool}

theorem parse_eq_ok :
    parse os source = .ok k ↔
      ∃ read, parseComponents os (endsWithDash source) (components source)
        ⟨Modifiers.none, none, none⟩ = some read ∧ read.keystroke = some k := by
  unfold parse
  rw [← Option.bind_eq_some_iff]
  split
  · rename_i keystroke heq
    rw [heq, Except.ok.injEq, Option.some.injEq]
  · rename_i heq
    rw [heq]
    simp

/-- **Soundness**, but for the texts that overrun. -/
theorem denotes_of_parse (h : parse os source = .ok k)
    (hfine : ¬ Overruns os (endsWithDash source) (components source)) :
    Denotes os (components source) k := by
  obtain ⟨read, hread, hk⟩ := parse_eq_ok.1 h
  obtain ⟨names, rest, hsplit, hnames, hrest⟩ := exists_names os (components source)
  rw [hsplit] at hfine hread ⊢
  rw [parseComponents_names _ _ hnames] at hread
  -- the cases of the loop behind the modifiers, of which the documented syntax has some
  rcases hrest with rfl | ⟨key, tail, rfl, hkey⟩
  · -- modifiers alone
    cases hread
    obtain ⟨taken, htaken, rfl⟩ := Option.map_eq_some_iff.1 hk
    rw [append_nil]
    exact .modifiers names taken hnames htaken
  cases tail with
  | nil =>
    rw [parseComponents_last _ _ hkey] at hread
    cases hread
    cases hk
    exact .key names key hnames hkey
  | cons next rest =>
    rcases next_cases (endsWithDash source) next with ⟨rfl, hends⟩ | ⟨keyChar, hne, rfl⟩ |
      ⟨hdash, hchar⟩
    · by_cases hover : key ≠ [] ∨ rest ≠ []
      · exact absurd (.dash names key rest hnames hkey hends hover) hfine
      · -- the key `-`
        rw [not_or, not_not, not_not] at hover
        obtain ⟨rfl, rfl⟩ := hover
        rw [parseComponents_dash _ _ hkey _ hends] at hread
        cases hread
        cases hk
        exact .dash names hnames
    · rw [parseComponents_keyChar _ _ hkey _ hne] at hread
      by_cases hover : rest = []
      · rw [hover] at hread ⊢
        cases hread
        cases hk
        exact .keyChar names key keyChar hnames hkey hne
      · have hcontinues : Continues os (endsWithDash source) rest := by
          rw [continues_iff, hread]
          rfl
        exact absurd (.keyChar names key keyChar rest hnames hkey hne hover hcontinues) hfine
    · rw [parseComponents_error _ _ hkey _ hdash hchar] at hread
      cases hread

/-- A key that was read is not lost, though it may be replaced. -/
theorem parseComponents_key_isSome {components : List Text} {read read' : Parsing}
    (h : parseComponents os ends components read = some read') (hkey : read.key.isSome = true) :
    read'.key.isSome = true := by
  fun_induction parseComponents os ends components read with
  | case1 =>
    cases h
    exact hkey
  | case2 =>
    cases h
    exact hkey
  | case3 =>
    cases h
    rfl
  | case4 component next rest read modifiers _ ih => exact ih h hkey
  | case5 =>
    cases h
    rfl
  | case6 component next rest read _ _ _ ih => exact ih h rfl
  | case7 => cases h

/-- A text that overruns is accepted. -/
theorem Overruns.accepted (h : Overruns os (endsWithDash source) (components source)) :
    ∃ k, parse os source = .ok k := by
  -- a key is read, so there is a keystroke
  have haccept : ∀ {read : Parsing}, parseComponents os (endsWithDash source)
      (components source) ⟨Modifiers.none, none, none⟩ = some read → read.key.isSome = true →
      ∃ k, parse os source = .ok k := by
    intro read hread hsome
    obtain ⟨key, hkey⟩ := Option.isSome_iff_exists.1 hsome
    refine ⟨⟨read.modifiers, key, read.keyChar⟩, parse_eq_ok.2 ⟨read, hread, ?_⟩⟩
    rw [Parsing.keystroke, hkey]
  generalize components source = cs at h haccept
  cases h with
  | dash names key rest hnames hkey hends hover =>
    apply haccept
    · rw [parseComponents_names _ _ hnames, parseComponents_dash _ _ hkey _ hends]
    · rfl
  | keyChar names key keyChar rest hnames hkey hne hover hcontinues =>
    rw [continues_iff] at hcontinues
    obtain ⟨read, hread⟩ := Option.isSome_iff_exists.1 hcontinues
    apply haccept
    · rw [parseComponents_names _ _ hnames, parseComponents_keyChar _ _ hkey _ hne]
      exact hread
    · exact parseComponents_key_isSome hread rfl

/-! ### Where the modifiers end -/

theorem dropWhile_names {names : List Text} (hnames : ∀ name ∈ names, isModifier os name = true)
    {key : Text} (hkey : isModifier os key = false) (tail : List Text) :
    (names ++ key :: tail).dropWhile (isModifier os) = key :: tail := by
  rw [dropWhile_append_of_pos hnames, dropWhile_cons_of_neg]
  rw [hkey]
  exact Bool.false_ne_true

theorem isModifier_nil (os : TargetOs) : isModifier os [] = false := by
  cases os <;> rfl

/-- Behind the modifiers of the documented syntax there is at most a key with its typed
    character. -/
theorem Denotes.rest {components : List Text} (h : Denotes os components k) :
    (∃ key, components.dropWhile (isModifier os) = [key]) ∨
    components.dropWhile (isModifier os) = [[], []] ∨
    (∃ key keyChar, components.dropWhile (isModifier os) = [key, '>' :: keyChar]) ∨
    components.dropWhile (isModifier os) = [] := by
  cases h with
  | key names key hnames hkey => exact .inl ⟨key, dropWhile_names hnames hkey []⟩
  | dash names hnames => exact .inr (.inl (dropWhile_names hnames (isModifier_nil os) _))
  | keyChar names key keyChar hnames hkey hne =>
    exact .inr (.inr (.inl ⟨key, keyChar, dropWhile_names hnames hkey _⟩))
  | modifiers _ taken hnames htaken =>
    refine .inr (.inr (.inr ?_))
    rw [dropWhile_eq_nil_iff]
    exact hnames

theorem Overruns.not_denotes {components : List Text} (h : Overruns os ends components)
    (k : Keystroke) : ¬ Denotes os components k := by
  intro hdenotes
  -- what stands behind the modifiers is compared
  have hrest := hdenotes.rest
  cases h with
  | dash names key rest hnames hkey hends hover =>
    rw [dropWhile_names hnames hkey] at hrest
    rcases hrest with ⟨other, heq⟩ | heq | ⟨other, keyChar, heq⟩ | heq
    · cases heq
    · cases heq
      rcases hover with hover | hover
      · exact hover rfl
      · exact hover rfl
    · cases heq
    · cases heq
  | keyChar names key keyChar rest hnames hkey hne hover _ =>
    rw [dropWhile_names hnames hkey] at hrest
    rcases hrest with ⟨other, heq⟩ | heq | ⟨other, keyChar', heq⟩ | heq
    · cases heq
    · cases heq
    · cases heq
      exact hover rfl
    · cases heq

/-! ### Completeness -/

theorem getLast?_intercalate_nil {components : List Text} (h : components ≠ []) :
    (['-'].intercalate (components ++ [[]])).getLast? = some '-' := by
  induction components with
  | nil => exact absurd rfl h
  | cons component components ih =>
    by_cases hnil : components = []
    · subst hnil
      simp [List.intercalate]
    · rw [cons_append, intercalate_cons_of_ne_nil (by simp), append_assoc]
      rw [getLast?_append, getLast?_append, ih hnil]
      rfl

/-- A text whose last of several components is empty ends with a dash. -/
theorem endsWithDash_of_components {front : List Text} (hne : front ≠ [])
    (h : components source = front ++ [[]]) : endsWithDash source = true := by
  have hsource : ['-'].intercalate (components source) = source := intercalate_splitOn ..
  unfold endsWithDash
  rw [← hsource, h, getLast?_intercalate_nil hne]
  rfl

/-- **Completeness**: all of the documented syntax is accepted, with its meaning. -/
theorem parse_of_denotes (h : Denotes os (components source) k) : parse os source = .ok k := by
  rw [parse_eq_ok]
  generalize hcs : components source = cs at h
  cases h with
  | key names key hnames hkey =>
    rw [parseComponents_names _ _ hnames, parseComponents_last _ _ hkey]
    exact ⟨_, rfl, rfl⟩
  | dash names hnames =>
    have hends : endsWithDash source = true := by
      have hcomponents : components source = (names ++ [[]]) ++ [[]] := by
        rw [hcs, append_assoc]
        rfl
      exact endsWithDash_of_components (by simp) hcomponents
    rw [parseComponents_names _ _ hnames, parseComponents_dash _ _ (isModifier_nil os) _ hends]
    exact ⟨_, rfl, rfl⟩
  | keyChar names key keyChar hnames hkey hne =>
    rw [parseComponents_names _ _ hnames, parseComponents_keyChar _ _ hkey _ hne]
    exact ⟨_, rfl, rfl⟩
  | modifiers _ taken hnames htaken =>
    have hread := parseComponents_names (endsWithDash source) ⟨Modifiers.none, none, none⟩ hnames []
    rw [append_nil] at hread
    rw [hread]
    refine ⟨_, rfl, ?_⟩
    show (modifierAsKey _).map _ = _
    rw [htaken]
    rfl

/-! ### Exactly when -/

/-- What is accepted is of the documented syntax, and means what it says, exactly for the
    texts that do not overrun. -/
theorem parse_accepts_iff (os : TargetOs) (source : Text) :
    (∀ k, parse os source = .ok k → Denotes os (components source) k) ↔
      ¬ Overruns os (endsWithDash source) (components source) := by
  constructor
  · intro h hover
    obtain ⟨k, hk⟩ := hover.accepted
    exact hover.not_denotes k (h k hk)
  · exact fun hfine k hk => denotes_of_parse hk hfine

/-- The key of `a-` is lost. -/
theorem parse_accepts_two_keys :
    ¬ ∀ (os : TargetOs) (source : Text) (k : Keystroke), parse os source = .ok k →
      Denotes os (components source) k := by
  intro h
  have hparse : parse .linux ['a', '-'] = .ok ⟨Modifiers.none, ['-'], none⟩ := by decide
  have hover : Overruns .linux true [['a'], []] :=
    .dash [] ['a'] [] (by simp) (by decide) rfl (.inl (by decide))
  have hcomponents : components ['a', '-'] = [['a'], []] := by decide
  have hdenotes := h _ _ _ hparse
  rw [hcomponents] at hdenotes
  exact hover.not_denotes _ hdenotes

end Keystroke

end Gpui
