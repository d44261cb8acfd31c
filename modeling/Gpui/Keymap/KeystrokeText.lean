import Gpui.Keymap.KeystrokeSyntax

/-! # The text of a keystroke is read back

    What the parser returns is in a normal form: the key is in lower case and names no
    modifier, or a modifier became the key under a fixed priority.  The printer writes the
    modifiers in an order of its own, and its text is of the documented syntax with the same
    meaning, on every system for which it has a word for the platform modifier. -/

namespace Gpui

open List

namespace Keystroke

variable {os : TargetOs}

/-! ### Lower case -/

variable {c : Char} {k : Keystroke}

theorem toLower_of_not_isUpper (h : c.isUpper = false) : c.toLower = c := by
  unfold Char.isUpper at h
  unfold Char.toLower
  rw [dif_neg]
  simpa using h

theorem toLower_val (h : c.isUpper = true) : c.toLower.val = c.val + 32 := by
  unfold Char.isUpper at h
  unfold Char.toLower
  rw [dif_pos (by simpa using h)]
  rfl

theorem isUpper_toLower (c : Char) : c.toLower.isUpper = false := by
  cases h : c.isUpper with
  | false => rw [toLower_of_not_isUpper h, h]
  | true =>
    have hval := toLower_val h
    unfold Char.isUpper at h ⊢
    simp only [ge_iff_le, decide_eq_true_eq, UInt32.le_iff_toNat_le] at h
    have hsum : (c.val + 32).toNat = c.val.toNat + 32 := by
      have hbound : c.val.toNat ≤ 90 := h.2
      show (c.val.toNat + 32) % 2 ^ 32 = _
      omega
    rw [hval, decide_eq_false_iff_not]
    rintro ⟨_, hle⟩
    rw [UInt32.le_iff_toNat_le, hsum] at hle
    have hlow : 65 ≤ c.val.toNat := h.1
    change c.val.toNat + 32 ≤ 90 at hle
    omega

theorem toLower_toLower (c : Char) : c.toLower.toLower = c.toLower :=
  toLower_of_not_isUpper (isUpper_toLower c)

theorem toLower_eq_dash (h : c.toLower = '-') : c = '-' := by
  cases hupper : c.isUpper with
  | false =>
    rw [toLower_of_not_isUpper hupper] at h
    exact h
  | true =>
    have hval := toLower_val hupper
    rw [h] at hval
    unfold Char.isUpper at hupper
    simp only [ge_iff_le, decide_eq_true_eq, UInt32.le_iff_toNat_le] at hupper
    have hlow : 65 ≤ c.val.toNat := hupper.1
    have hhigh : c.val.toNat ≤ 90 := hupper.2
    have hnat := congrArg UInt32.toNat hval
    change 45 = (c.val.toNat + 32) % 2 ^ 32 at hnat
    omega

theorem asciiLowercase_twice (text : Text) :
    asciiLowercase (asciiLowercase text) = asciiLowercase text := by
  unfold asciiLowercase
  rw [map_map]
  exact map_congr_left fun c _ => toLower_toLower c

theorem isCapital_asciiLowercase (text : Text) : isCapital (asciiLowercase text) = false := by
  cases text with
  | nil => rfl
  | cons c text =>
    cases text with
    | nil => exact isUpper_toLower c
    | cons d text => rfl

theorem dash_not_mem_asciiLowercase {text : Text} (h : '-' ∉ text) :
    '-' ∉ asciiLowercase text := by
  intro hmem
  obtain ⟨c, hc, heq⟩ := mem_map.1 hmem
  rw [toLower_eq_dash heq] at hc
  exact h hc

theorem isModifier_asciiLowercase (os : TargetOs) (text : Text) :
    isModifier os (asciiLowercase text) = isModifier os text := by
  have heq : ∀ name, eqIgnoreAsciiCase (asciiLowercase text) name = eqIgnoreAsciiCase text name := by
    intro name
    show (asciiLowercase (asciiLowercase text) == _) = _
    rw [asciiLowercase_twice]
    rfl
  unfold isModifier setModifier
  simp only [heq]

/-! ### The normal form -/

/-- A key that the parser has read: the dash, or a name in lower case. -/
def PlainKey (os : TargetOs) (key : Text) : Prop :=
  key = ['-'] ∨ ('-' ∉ key ∧ asciiLowercase key = key ∧ isModifier os key = false)

/-- What the parser returns where there is no typed character. -/
structure Normal (os : TargetOs) (k : Keystroke) : Prop where
  keyChar : k.keyChar = none
  key : PlainKey os k.key ∨
    -- a modifier that is the key
    (k.key = ['s', 'h', 'i', 'f', 't'] ∧ k.modifiers.shift = false) ∨
    (k.key = ['a', 'l', 't'] ∧ k.modifiers.shift = false ∧ k.modifiers.control = false ∧
      k.modifiers.alt = false)

theorem dash_not_mem_components {source component : Text} (h : component ∈ components source) :
    '-' ∉ component := by
  unfold components at h
  induction source generalizing component with
  | nil =>
    rw [splitOn_nil, mem_singleton] at h
    rw [h]
    exact not_mem_nil
  | cons c source ih =>
    rw [splitOn_cons_eq_if_modifyHead] at h
    split at h
    · rcases mem_cons.1 h with rfl | h
      · exact not_mem_nil
      · exact ih h
    · rename_i hc
      cases hsplit : source.splitOn '-' with
      | nil => exact absurd hsplit (splitOn_ne_nil _ _)
      | cons first rest =>
        rw [hsplit] at h ih
        rcases mem_cons.1 h with rfl | h
        · -- the character goes before the first component
          intro hmem
          rcases mem_cons.1 hmem with heq | hmem
          · rw [← heq] at hc
            exact hc (beq_self_eq_true _)
          · exact ih mem_cons_self hmem
        · exact ih (mem_cons_of_mem _ h)

/-- The loop reads plain keys only, as long as there is no typed character. -/
theorem parseComponents_plain {ends : Bool} {components : List Text} {read read' : Parsing}
    (h : parseComponents os ends components read = some read')
    (hdash : ∀ component ∈ components, '-' ∉ component)
    (hread : read.keyChar = none → ∀ key, read.key = some key → PlainKey os key) :
    read'.keyChar = none → ∀ key, read'.key = some key → PlainKey os key := by
  fun_induction parseComponents os ends components read with
  | case1 =>
    cases h
    exact hread
  | case2 =>
    cases h
    exact hread
  | case3 component read heq =>
    cases h
    rintro - key hkey
    cases hkey
    refine .inr ⟨dash_not_mem_asciiLowercase (hdash component (by simp)),
      asciiLowercase_twice component, ?_⟩
    rw [isModifier_asciiLowercase, ← setModifier_isSome os component read.modifiers, heq]
    rfl
  | case4 component next rest read modifiers _ ih =>
    exact ih h (fun other hother => hdash other (by simp [hother])) hread
  | case5 =>
    cases h
    rintro - key hkey
    cases hkey
    exact .inl rfl
  | case6 component next rest read _ _ _ ih =>
    refine ih h (fun other hother => hdash other (by simp [hother])) ?_
    intro hnone
    cases hnone
  | case7 => cases h

/-- The modifiers whose names as keys are not those as modifiers. -/
theorem plainKey_modifier {key : Text}
    (h : key ∈ ([['c', 'o', 'n', 't', 'r', 'o', 'l'], ['p', 'l', 'a', 't', 'f', 'o', 'r', 'm'],
      ['f', 'u', 'n', 'c', 't', 'i', 'o', 'n']] : List Text)) : PlainKey os key := by
  simp only [mem_cons, not_mem_nil, or_false] at h
  rcases h with rfl | rfl | rfl <;> exact .inr ⟨by decide, by decide, by cases os <;> rfl⟩

theorem normal_of_parse {source : Text} (h : parse os source = .ok k)
    (hchar : k.keyChar = none) : Normal os k := by
  obtain ⟨read, hread, hk⟩ := parse_eq_ok.1 h
  have hplain := parseComponents_plain hread (fun _ => dash_not_mem_components)
    (fun _ key hkey => by cases hkey)
  refine ⟨hchar, ?_⟩
  unfold Parsing.keystroke at hk
  split at hk
  · rename_i key hkey
    cases hk
    exact .inl (hplain hchar key hkey)
  · obtain ⟨taken, htaken, rfl⟩ := Option.map_eq_some_iff.1 hk
    -- the first modifier of the priority that is there becomes the key
    unfold modifierAsKey at htaken
    split_ifs at htaken with hshift hcontrol halt hplatform hfunction
    · cases htaken
      exact .inr (.inl ⟨rfl, rfl⟩)
    · cases htaken
      exact .inl (plainKey_modifier (by simp))
    · cases htaken
      exact .inr (.inr ⟨rfl, by simpa using hshift, by simpa using hcontrol, rfl⟩)
    · cases htaken
      exact .inl (plainKey_modifier (by simp))
    · cases htaken
      exact .inl (plainKey_modifier (by simp))

/-! ### What is written -/

/-- The names that are written for the modifiers. -/
def writtenNames (os : TargetOs) (modifiers : Modifiers) : List Text :=
  (if modifiers.function then [['f', 'n']] else []) ++
  (if modifiers.control then [['c', 't', 'r', 'l']] else []) ++
  (if modifiers.alt then [['a', 'l', 't']] else []) ++
  (if modifiers.platform then
    match os with
    | .macos   => [['c', 'm', 'd']]
    | .linux   => [['s', 'u', 'p', 'e', 'r']]
    | .freebsd => [['s', 'u', 'p', 'e', 'r']]
    | .windows => [['w', 'i', 'n']]
    | .other   => []
  else []) ++
  (if modifiers.shift then [['s', 'h', 'i', 'f', 't']] else [])

/-- The modifiers that are written. -/
def written (os : TargetOs) (modifiers : Modifiers) : Modifiers :=
  if os = .other then { modifiers with platform := false } else modifiers

theorem unparse_eq (os : TargetOs) (k : Keystroke) :
    k.unparse os = (writtenNames os k.modifiers).flatMap (· ++ ['-']) ++ k.key := by
  obtain ⟨⟨control, alt, shift, platform, function⟩, key, keyChar⟩ := k
  cases os <;> cases control <;> cases alt <;> cases shift <;> cases platform <;>
    cases function <;> rfl

theorem named_writtenNames (os : TargetOs) (modifiers : Modifiers) :
    named os (writtenNames os modifiers) Modifiers.none = written os modifiers := by
  obtain ⟨control, alt, shift, platform, function⟩ := modifiers
  cases os <;> cases control <;> cases alt <;> cases shift <;> cases platform <;>
    cases function <;> rfl

theorem isModifier_writtenNames {modifiers : Modifiers} {name : Text}
    (h : name ∈ writtenNames os modifiers) : isModifier os name = true ∧ '-' ∉ name := by
  have hall : writtenNames os modifiers ⊆ [['f', 'n'], ['c', 't', 'r', 'l'], ['a', 'l', 't'],
      ['c', 'm', 'd'], ['s', 'u', 'p', 'e', 'r'], ['w', 'i', 'n'], ['s', 'h', 'i', 'f', 't']] := by
    unfold writtenNames
    intro name hname
    cases os <;> grind
  have hname := hall h
  simp only [mem_cons, not_mem_nil, or_false] at hname
  rcases hname with rfl | rfl | rfl | rfl | rfl | rfl | rfl <;>
    exact ⟨by cases os <;> rfl, by decide⟩

theorem components_flatMap {names : List Text} (h : ∀ name ∈ names, '-' ∉ name) (rest : Text) :
    components (names.flatMap (· ++ ['-']) ++ rest) = names ++ components rest := by
  induction names with
  | nil => rfl
  | cons name names ih =>
    rw [flatMap_cons, append_assoc, append_assoc]
    show (name ++ '-' :: (names.flatMap (· ++ ['-']) ++ rest)).splitOn '-' = _
    rw [splitOn_append_cons_self_of_not_mem (h name (by simp))]
    exact congrArg (name :: ·) (ih fun other hother => h other (by simp [hother]))

theorem components_key {key : Text} (h : '-' ∉ key) : components key = [key] :=
  splitOn_eq_singleton h

theorem named_append (names names' : List Text) (modifiers : Modifiers) :
    named os (names ++ names') modifiers = named os names' (named os names modifiers) :=
  foldl_append

/-! ### What is read back -/

/-- The text of a keystroke in normal form is of the documented syntax, and means the
    keystroke with the modifiers that are written. -/
theorem Normal.denotes (h : Normal os k) :
    Denotes os (components (k.unparse os)) { k with modifiers := written os k.modifiers } := by
  obtain ⟨modifiers, key, keyChar⟩ := k
  obtain ⟨hchar, hkey⟩ := h
  dsimp only at hchar hkey ⊢
  subst hchar
  have hnames : ∀ name ∈ writtenNames os modifiers, isModifier os name = true :=
    fun name hname => (isModifier_writtenNames hname).1
  rw [unparse_eq, components_flatMap fun name hname => (isModifier_writtenNames hname).2]
  dsimp only
  rw [← named_writtenNames]
  -- a modifier that is the key is named last, and taken first
  have hlast : ∀ (name : Text) (taken : Text × Modifiers), '-' ∉ name →
      isModifier os name = true →
      modifierAsKey (named os [name] (written os modifiers)) = some taken →
      Denotes os (writtenNames os modifiers ++ components name) ⟨taken.2, taken.1, none⟩ := by
    intro name taken hdash hname htaken
    rw [components_key hdash]
    refine .modifiers _ taken ?_ ?_
    · intro other hother
      rcases mem_append.1 hother with hother | hother
      · exact hnames other hother
      · rw [mem_singleton.1 hother]
        exact hname
    · rw [named_append, named_writtenNames]
      exact htaken
  rcases hkey with (rfl | ⟨hdash, hlower, hname⟩) | ⟨rfl, hshift⟩ | ⟨rfl, hshift, hcontrol, halt⟩
  · exact .dash _ hnames
  · rw [components_key hdash]
    have hdenotes := Denotes.key (writtenNames os modifiers) key hnames hname
    have hsmall : isCapital key = false := hlower ▸ isCapital_asciiLowercase key
    rw [hlower, hsmall] at hdenotes
    exact hdenotes
  · rw [named_writtenNames]
    refine hlast _ (['s', 'h', 'i', 'f', 't'], written os modifiers) (by decide)
      (by cases os <;> rfl) ?_
    obtain ⟨control, alt, shift, platform, function⟩ := modifiers
    cases hshift
    cases os <;> rfl
  · rw [named_writtenNames]
    refine hlast _ (['a', 'l', 't'], written os modifiers) (by decide) (by cases os <;> rfl) ?_
    obtain ⟨control, alt, shift, platform, function⟩ := modifiers
    cases hshift
    cases hcontrol
    cases halt
    cases os <;> rfl

theorem parse_unparse (h : Normal os k) :
    parse os (k.unparse os) = .ok { k with modifiers := written os k.modifiers } :=
  parse_of_denotes h.denotes

/-- The text of a keystroke that was parsed is read back as the same keystroke, exactly where
    there is a word for the platform modifier or the keystroke does not have it. -/
theorem parse_unparse_iff {source : Text} {k : Keystroke} (h : parse os source = .ok k)
    (hchar : k.keyChar = none) :
    parse os (k.unparse os) = .ok k ↔ os ≠ .other ∨ k.modifiers.platform = false := by
  rw [parse_unparse (normal_of_parse h hchar)]
  obtain ⟨⟨control, alt, shift, platform, function⟩, key, keyChar⟩ := k
  unfold written
  by_cases hos : os = .other
  · cases platform <;> simp [hos]
  · simp [hos]

/-- The keystroke of `alt-cmd`, whose key is the alt key. -/
theorem parse_unparse_iff_altCmd :
    parse .linux (unparse .linux ⟨{ Modifiers.none with platform := true }, ['a', 'l', 't'], none⟩) =
      .ok ⟨{ Modifiers.none with platform := true }, ['a', 'l', 't'], none⟩ :=
  have h : parse .linux ['a', 'l', 't', '-', 'c', 'm', 'd'] =
      .ok ⟨{ Modifiers.none with platform := true }, ['a', 'l', 't'], none⟩ := by
    decide
  (parse_unparse_iff h rfl).2 (.inl (by decide))

/-- On the web the platform modifier is not written. -/
theorem parse_unparse_web :
    ¬ ∀ (os : TargetOs) (source : Text) (k : Keystroke), parse os source = .ok k →
      k.keyChar = none → parse os (k.unparse os) = .ok k := by
  intro h
  have hparse : parse .other ['c', 'm', 'd', '-', 'a'] =
      .ok ⟨{ Modifiers.none with platform := true }, ['a'], none⟩ := by decide
  have hback := h _ _ _ hparse rfl
  have hlost : parse .other (unparse .other ⟨{ Modifiers.none with platform := true }, ['a'], none⟩) =
      .ok ⟨Modifiers.none, ['a'], none⟩ := by decide
  rw [hlost] at hback
  simp [Modifiers.none] at hback

end Keystroke

end Gpui
