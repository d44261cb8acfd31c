import Gpui.Keymap.Context

/-! # Keymap: keystrokes and key bindings

    A binding is a sequence of keystrokes with an action, and with a predicate
    that says in which contexts it is enabled.  A typed keystroke can meet a
    keystroke of a binding in two ways: through the key that was pressed, or
    through the character it produced. -/

namespace Gpui

open List

/-! ## Keystrokes -/

/-- What the code asks of the operating system it is compiled for. -/
class Target where
  windows : Bool

/-- A system other than Windows. -/
@[reducible] def Target.unix : Target := ⟨false⟩

structure Modifiers where
  control : Bool
  alt : Bool
  shift : Bool
  platform : Bool
  function : Bool
  deriving DecidableEq, Repr

def Modifiers.none : Modifiers := ⟨false, false, false, false, false⟩

structure Keystroke where
  modifiers : Modifiers
  /-- The key that was pressed. -/
  key : Text
  /-- The character that could have been typed. -/
  keyChar : Option Text
  deriving DecidableEq, Repr

structure KeybindingKeystroke where
  inner : Keystroke
  /-- The modifiers and the key to display, on Windows. -/
  display : Option (Modifiers × Text)
  deriving DecidableEq, Repr

/-- The modifiers a binding must have to be met through the typed character. -/
def Keystroke.imeModifiers [Target] (self : Keystroke) : Modifiers :=
  if Target.windows then Modifiers.none
  else { Modifiers.none with
    control := self.modifiers.control, platform := self.modifiers.platform }

/-- Whether the typed keystroke meets `target`, which is in the keymap. -/
def Keystroke.shouldMatch [Target] (self : Keystroke) (target : KeybindingKeystroke) : Bool :=
  let byChar := match self.keyChar with
    | none         => false
    | some keyChar => keyChar != self.key && target.inner.key == keyChar
        && target.inner.modifiers == self.imeModifiers
  if byChar then true
  else target.inner.modifiers == self.modifiers && target.inner.key == self.key

/-- A keystroke of a binding, when typed, meets that binding. -/
theorem Keystroke.shouldMatch_self [Target] (target : KeybindingKeystroke) :
    target.inner.shouldMatch target = true := by
  simp [Keystroke.shouldMatch]

/-! ## Actions -/

/-- What the keymap asks of the types that are used as actions. -/
class Action (A : Type) where
  typeId : A → Nat
  partialEq : A → A → Bool
  name : A → Text

/-- A boxed action.  The keymap treats two types of action in a special way. -/
inductive DynAction (A : Type) where
  /-- `null` in a keymap. -/
  | noAction
  /-- Takes the named action off the keystrokes of the binding. -/
  | unbind (name : Text)
  | other (action : A)
  deriving DecidableEq, Repr

namespace DynAction

variable {A : Type}

def isNoAction : DynAction A → Bool
  | noAction => true
  | unbind _ => false
  | other _  => false

def isUnbind : DynAction A → Bool
  | noAction => false
  | unbind _ => true
  | other _  => false

/-- Whether the action takes bindings away. -/
def isDisabling (action : DynAction A) : Bool :=
  action.isNoAction || action.isUnbind

def name [Action A] : DynAction A → Text
  | noAction     => "zed::NoAction".toList
  | unbind _     => "zed::Unbind".toList
  | other action => Action.name action

theorem isDisabling_eq_false {action : DynAction A} :
    action.isDisabling = false ↔ ∃ a, action = other a := by
  cases action <;> simp [isDisabling, isNoAction, isUnbind]

end DynAction

/-- A unit struct that is used as an action. -/
structure UnitAction where
  id : Nat
  name : Text
  deriving DecidableEq, Repr

instance : Action UnitAction where
  typeId := UnitAction.id
  partialEq := fun a b => a == b
  name := UnitAction.name

/-! ## Bindings -/

structure KeyBinding (A : Type) where
  action : DynAction A
  keystrokes : List KeybindingKeystroke
  contextPredicate : Option KeyBindingContextPredicate
  /-- Where the binding comes from: the smaller, the stronger. -/
  metaIndex : Option Nat
  deriving DecidableEq, Repr

/-- A key that is pressed without modifiers. -/
def Keystroke.plain (key : Char) : Keystroke := ⟨Modifiers.none, [key], none⟩

namespace KeyBinding

variable {A : Type}

/-- A binding on plain keys that is enabled everywhere. -/
def plain (keys : List Char) (action : DynAction A) (metaIndex : Option Nat) : KeyBinding A :=
  ⟨action, keys.map (fun key => ⟨Keystroke.plain key, none⟩), none, metaIndex⟩

variable [Target]

/-- Whether the typed keystrokes match the binding, and if they do, whether the
    binding has more of them. -/
def matchKeystrokes (self : KeyBinding A) (typed : List Keystroke) : Option Bool :=
  if self.keystrokes.length < typed.length then none
  else if (self.keystrokes.zip typed).all (fun pair => pair.2.shouldMatch pair.1) then
    some (decide (typed.length < self.keystrokes.length))
  else none

/-- The typed keystrokes meet the first keystrokes of the binding. -/
def Begins (binding : KeyBinding A) (typed : List Keystroke) : Prop :=
  typed.length ≤ binding.keystrokes.length ∧
    ∀ (i : Nat) (target : KeybindingKeystroke) (keystroke : Keystroke),
      binding.keystrokes[i]? = some target → typed[i]? = some keystroke →
        keystroke.shouldMatch target = true

/-- The keystrokes of the binding that follow the typed ones, as typed. -/
def remaining (binding : KeyBinding A) (typed : List Keystroke) : List Keystroke :=
  (binding.keystrokes.drop typed.length).map KeybindingKeystroke.inner

variable {binding : KeyBinding A} {typed rest : List Keystroke}

theorem all_zip_shouldMatch :
    (binding.keystrokes.zip typed).all (fun pair => pair.2.shouldMatch pair.1) = true ↔
      ∀ (i : Nat) (target : KeybindingKeystroke) (keystroke : Keystroke),
        binding.keystrokes[i]? = some target → typed[i]? = some keystroke →
          keystroke.shouldMatch target = true := by
  rw [all_eq_true]
  constructor
  · intro h i target keystroke htarget hkeystroke
    exact h (target, keystroke)
      (mem_iff_getElem?.mpr ⟨i, getElem?_zip_eq_some.mpr ⟨htarget, hkeystroke⟩⟩)
  · intro h ⟨target, keystroke⟩ hpair
    obtain ⟨i, hi⟩ := mem_iff_getElem?.mp hpair
    obtain ⟨htarget, hkeystroke⟩ := getElem?_zip_eq_some.mp hi
    exact h i target keystroke htarget hkeystroke

theorem matchKeystrokes_eq_some {pending : Bool} :
    binding.matchKeystrokes typed = some pending ↔
      binding.Begins typed ∧ pending = decide (typed.length < binding.keystrokes.length) := by
  rw [matchKeystrokes, Begins, ← all_zip_shouldMatch]
  by_cases hlt : binding.keystrokes.length < typed.length
  · rw [if_pos hlt]
    constructor
    · intro h
      cases h
    · intro ⟨⟨hle, _⟩, _⟩
      omega
  · rw [if_neg hlt]
    by_cases hall : (binding.keystrokes.zip typed).all
        (fun pair => pair.2.shouldMatch pair.1) = true
    · rw [if_pos hall, Option.some.injEq]
      constructor
      · intro h
        exact ⟨⟨Nat.le_of_not_lt hlt, hall⟩, h.symm⟩
      · intro h
        exact h.2.symm
    · rw [if_neg hall]
      constructor
      · intro h
        cases h
      · intro ⟨⟨_, hmeet⟩, _⟩
        exact absurd hmeet hall

theorem matchKeystrokes_pending :
    binding.matchKeystrokes typed = some true ↔
      binding.Begins typed ∧ typed.length < binding.keystrokes.length := by
  rw [matchKeystrokes_eq_some, @eq_comm _ true, decide_eq_true_iff]

theorem matchKeystrokes_complete :
    binding.matchKeystrokes typed = some false ↔
      binding.Begins typed ∧ typed.length = binding.keystrokes.length := by
  rw [matchKeystrokes_eq_some, @eq_comm _ false, decide_eq_false_iff_not]
  constructor
  · intro ⟨h, hlt⟩
    exact ⟨h, Nat.le_antisymm h.1 (Nat.le_of_not_lt hlt)⟩
  · intro ⟨h, heq⟩
    exact ⟨h, by omega⟩

/-- Less input meets the binding too. -/
theorem Begins.of_append (h : binding.Begins (typed ++ rest)) : binding.Begins typed := by
  have hle := h.1
  rw [length_append] at hle
  refine ⟨by omega, ?_⟩
  intro i target keystroke htarget hkeystroke
  apply h.2 i target keystroke htarget
  rw [List.getElem?_append_left (List.getElem?_eq_some_iff.mp hkeystroke).1, hkeystroke]

/-- The typed keystrokes may be completed with the binding's own. -/
theorem Begins.append_remaining (h : binding.Begins typed) :
    binding.matchKeystrokes (typed ++ binding.remaining typed) = some false := by
  rw [matchKeystrokes_complete]
  have hle := h.1
  have hlength : (typed ++ binding.remaining typed).length = binding.keystrokes.length := by
    simp [remaining]
    omega
  refine ⟨⟨Nat.le_of_eq hlength, ?_⟩, hlength⟩
  intro i target keystroke htarget hkeystroke
  by_cases hi : i < typed.length
  · -- a keystroke that was typed
    rw [getElem?_append_left hi] at hkeystroke
    exact h.2 i target keystroke htarget hkeystroke
  · -- one of the binding's own
    rw [getElem?_append_right (by omega), remaining, getElem?_map,
      getElem?_drop, show typed.length + (i - typed.length) = i by omega, htarget,
      Option.map_some, Option.some.injEq] at hkeystroke
    rw [← hkeystroke]
    exact Keystroke.shouldMatch_self target

/-- A binding is met by its own keystrokes. -/
theorem matchKeystrokes_own (binding : KeyBinding A) :
    binding.matchKeystrokes (binding.keystrokes.map KeybindingKeystroke.inner) = some false := by
  have hempty : binding.Begins [] := by
    refine ⟨Nat.zero_le _, ?_⟩
    intro i target keystroke _ hkeystroke
    cases hkeystroke
  have h := hempty.append_remaining
  rwa [nil_append, remaining, length_nil, drop_zero] at h

end KeyBinding

end Gpui

/-! # Keystrokes as text: the model

    A keystroke is written as its modifiers and its key with dashes between them, and may
    have the typed character behind an arrow.  The dash is also a key, so the parser looks
    for empty components and at the end of the text. -/

namespace Gpui

/-- The operating systems that the code tells apart. -/
inductive TargetOs where
  | macos
  | linux
  | freebsd
  | windows
  /-- The web, and any other. -/
  | other
deriving DecidableEq, Repr

structure InvalidKeystrokeError where
  /-- The invalid keystroke. -/
  keystroke : Text
deriving DecidableEq, Repr

namespace Keystroke

/-- `eq_ignore_ascii_case`. -/
def eqIgnoreAsciiCase (a b : Text) : Bool :=
  a.map Char.toLower == b.map Char.toLower

/-- `make_ascii_lowercase`. -/
def asciiLowercase (text : Text) : Text := text.map Char.toLower

/-- The modifiers with the one that a component names; none if it names none. -/
def setModifier (os : TargetOs) (component : Text) (modifiers : Modifiers) : Option Modifiers :=
  if eqIgnoreAsciiCase component ['c', 't', 'r', 'l'] then some { modifiers with control := true }
  else if eqIgnoreAsciiCase component ['a', 'l', 't'] then some { modifiers with alt := true }
  else if eqIgnoreAsciiCase component ['s', 'h', 'i', 'f', 't'] then
    some { modifiers with shift := true }
  else if eqIgnoreAsciiCase component ['f', 'n'] then some { modifiers with function := true }
  else if eqIgnoreAsciiCase component ['s', 'e', 'c', 'o', 'n', 'd', 'a', 'r', 'y'] then
    if os = .macos then some { modifiers with platform := true }
    else some { modifiers with control := true }
  else if eqIgnoreAsciiCase component ['c', 'm', 'd'] ||
      eqIgnoreAsciiCase component ['s', 'u', 'p', 'e', 'r'] ||
      eqIgnoreAsciiCase component ['w', 'i', 'n'] then
    some { modifiers with platform := true }
  else none

/-- What the loop has read. -/
structure Parsing where
  modifiers : Modifiers
  key : Option Text
  keyChar : Option Text
deriving DecidableEq, Repr

/-- The component is one ASCII capital. -/
def isCapital : Text → Bool
  | [c] => c.isUpper
  | _   => false

/-- The last component is the key. -/
def Parsing.last (read : Parsing) (component : Text) : Parsing where
  -- a capital is its letter with shift
  modifiers := if isCapital component then { read.modifiers with shift := true }
    else read.modifiers
  key := some (asciiLowercase component)
  keyChar := read.keyChar

/-- The loop over the components of the source; none is the error. -/
def parseComponents (os : TargetOs) (endsWithDash : Bool) : List Text → Parsing → Option Parsing
  | [], read => some read
  | [component], read =>
      match setModifier os component read.modifiers with
      | some modifiers => some { read with modifiers := modifiers }
      | none           => some (read.last component)
  | component :: next :: rest, read =>
      match setModifier os component read.modifiers with
      | some modifiers =>
          parseComponents os endsWithDash (next :: rest) { read with modifiers := modifiers }
      | none =>
          if next.isEmpty && endsWithDash then some { read with key := some ['-'] }
          else if 1 < next.length && next.head? == some '>' then
            parseComponents os endsWithDash rest
              { read with key := some component, keyChar := some next.tail }
          else none

/-- The key of a keystroke that has modifiers only, and the modifiers that are left. -/
def modifierAsKey (modifiers : Modifiers) : Option (Text × Modifiers) :=
  if modifiers.shift then some (['s', 'h', 'i', 'f', 't'], { modifiers with shift := false })
  else if modifiers.control then
    some (['c', 'o', 'n', 't', 'r', 'o', 'l'], { modifiers with control := false })
  else if modifiers.alt then some (['a', 'l', 't'], { modifiers with alt := false })
  else if modifiers.platform then
    some (['p', 'l', 'a', 't', 'f', 'o', 'r', 'm'], { modifiers with platform := false })
  else if modifiers.function then
    some (['f', 'u', 'n', 'c', 't', 'i', 'o', 'n'], { modifiers with function := false })
  else none

/-- The keystroke of what was read. -/
def Parsing.keystroke (read : Parsing) : Option Keystroke :=
  match read.key with
  | some key => some ⟨read.modifiers, key, read.keyChar⟩
  | none     => (modifierAsKey read.modifiers).map fun taken => ⟨taken.2, taken.1, read.keyChar⟩

/-- `source.split('-')`. -/
def components (source : Text) : List Text := source.splitOn '-'

def endsWithDash (source : Text) : Bool := source.getLast? == some '-'

def parse (os : TargetOs) (source : Text) : Except InvalidKeystrokeError Keystroke :=
  match (parseComponents os (endsWithDash source) (components source)
      ⟨Modifiers.none, none, none⟩).bind Parsing.keystroke with
  | some keystroke => .ok keystroke
  | none           => .error ⟨source⟩

/-- What is written for the platform modifier. -/
def platformPrefix : TargetOs → Text
  | .macos   => ['c', 'm', 'd', '-']
  | .linux   => ['s', 'u', 'p', 'e', 'r', '-']
  | .freebsd => ['s', 'u', 'p', 'e', 'r', '-']
  | .windows => ['w', 'i', 'n', '-']
  | .other   => []

def unparse (os : TargetOs) (self : Keystroke) : Text :=
  (if self.modifiers.function then ['f', 'n', '-'] else []) ++
  (if self.modifiers.control then ['c', 't', 'r', 'l', '-'] else []) ++
  (if self.modifiers.alt then ['a', 'l', 't', '-'] else []) ++
  (if self.modifiers.platform then platformPrefix os else []) ++
  (if self.modifiers.shift then ['s', 'h', 'i', 'f', 't', '-'] else []) ++
  self.key

end Keystroke

end Gpui
