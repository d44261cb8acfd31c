import Gpui.Window.PendingInput

/-! # Lone modifiers

    A modifier that is pressed and released alone is a keystroke of its own.  The platform
    reports sets of modifiers, so the window has to find the press and the release in its
    events.  It keeps the last set and one flag for all that happened since the press.

    Positions and the handlers of the events are left out: they do not change what the
    window keeps about modifiers. -/

namespace Gpui

open List

/-! ## The events of a window -/

inductive FileDropEvent where
  | entered
  | pending
  | submit
  | exited
  | ended
deriving DecidableEq, Repr

/-- The events of the platform, with the modifiers they carry. -/
inductive PlatformInput where
  | keyDown (keystroke : Keystroke)
  | keyUp (keystroke : Keystroke)
  | modifiersChanged (modifiers : Modifiers) (capslock : Bool)
  | mouseDown (modifiers : Modifiers)
  | mouseUp (modifiers : Modifiers)
  | mousePressure (modifiers : Modifiers)
  | mouseMove (modifiers : Modifiers)
  | mouseExited (modifiers : Modifiers)
  | scrollWheel (modifiers : Modifiers)
  | pinch (modifiers : Modifiers)
  | fileDrop (event : FileDropEvent)
  | touch
deriving DecidableEq, Repr

inductive InputModality where
  | mouse
  | keyboard
  | touch
deriving DecidableEq, Repr

def Modifiers.numberOfModifiers (self : Modifiers) : Nat :=
  self.control.toNat + self.alt.toNat + self.shift.toNat + self.platform.toNat +
    self.function.toNat

/-! ## The pending modifier -/

structure ModifierState where
  modifiers : Modifiers
  sawOtherInput : Bool
deriving DecidableEq, Repr

namespace ModifierState

def default : ModifierState := ⟨Modifiers.none, false⟩

/-- The key of the keystroke of a set of modifiers. -/
def loneKey (modifiers : Modifiers) : Option Text :=
  if modifiers.shift then some ['s', 'h', 'i', 'f', 't']
  else if modifiers.control then some ['c', 'o', 'n', 't', 'r', 'o', 'l']
  else if modifiers.alt then some ['a', 'l', 't']
  else if modifiers.platform then some ['p', 'l', 'a', 't', 'f', 'o', 'r', 'm']
  else if modifiers.function then some ['f', 'u', 'n', 'c', 't', 'i', 'o', 'n']
  else none

/-- The keystroke of a change to `modifiers`, if it makes one. -/
def keystroke (self : ModifierState) (modifiers : Modifiers) : Option Keystroke :=
  if modifiers.numberOfModifiers = 0 ∧ self.modifiers.numberOfModifiers = 1 ∧
      self.sawOtherInput = false then
    (loneKey self.modifiers).map fun key => ⟨Modifiers.none, key, none⟩
  else none

/-- What is kept after a change to `modifiers`. -/
def change (self : ModifierState) (modifiers : Modifiers) : ModifierState where
  modifiers := modifiers
  sawOtherInput :=
    -- a press of one modifier starts anew
    if self.modifiers.numberOfModifiers = 0 ∧ modifiers.numberOfModifiers = 1 then false
    else if 1 < modifiers.numberOfModifiers then true
    else self.sawOtherInput

end ModifierState

/-! ## The window -/

/-- The part of a window that its events change before any handler runs. -/
structure InputWindow where
  lastInputModality : InputModality
  modifiers : Modifiers
  capslock : Bool
  pendingModifier : ModifierState
deriving DecidableEq, Repr

namespace InputWindow

/-- A window that opens, with what the platform says of the keyboard. -/
def new (modifiers : Modifiers) (capslock : Bool) : InputWindow where
  lastInputModality := .mouse
  modifiers := modifiers
  capslock := capslock
  pendingModifier := .default

def modality (s : InputWindow) : PlatformInput → InputModality
  | .keyDown _   => .keyboard
  | .mouseMove _ => .mouse
  | .mouseDown _ => .mouse
  | .touch       => .touch
  | _            => s.lastInputModality

/-- What `dispatch_event` notes down of an event. -/
def track (s : InputWindow) (event : PlatformInput) : InputWindow :=
  let s := { s with lastInputModality := s.modality event }
  match event with
  | .mouseMove modifiers   => { s with modifiers := modifiers }
  | .mouseDown modifiers   => { s with modifiers := modifiers }
  | .mouseUp modifiers     => { s with modifiers := modifiers }
  | .mouseExited modifiers => { s with modifiers := modifiers }
  | .modifiersChanged modifiers capslock =>
      { s with modifiers := modifiers, capslock := capslock }
  | .scrollWheel modifiers => { s with modifiers := modifiers }
  | .pinch modifiers       => { s with modifiers := modifiers }
  | _                      => s

/-- The start of `dispatch_key_event`: what is kept, and the event as the keymap gets it. -/
def dispatchKeyEvent (s : InputWindow) : PlatformInput → InputWindow × KeyEvent
  | .modifiersChanged modifiers _ =>
      ({ s with pendingModifier := s.pendingModifier.change modifiers },
        match s.pendingModifier.keystroke modifiers with
        | some keystroke => .modifier keystroke
        | none           => .other)
  | .keyDown keystroke =>
      ({ s with pendingModifier := { s.pendingModifier with sawOtherInput := true } },
        .keyDown keystroke)
  | _ => (s, .other)

/-- Whether an event is one of the keyboard. -/
def isKeyboardEvent : PlatformInput → Bool
  | .keyDown _            => true
  | .keyUp _              => true
  | .modifiersChanged _ _ => true
  | _                     => false

/-- The window after an event, and the key event that is dispatched if it is one.  The others
    go to the listeners of the mouse, or of touches. -/
def dispatchEvent (s : InputWindow) (event : PlatformInput) : InputWindow × Option KeyEvent :=
  let s := s.track event
  if isKeyboardEvent event then
    let (s, dispatched) := s.dispatchKeyEvent event
    (s, some dispatched)
  else (s, none)

/-- The window after some events. -/
def run (s : InputWindow) (events : List PlatformInput) : InputWindow :=
  events.foldl (fun s event => (s.dispatchEvent event).1) s

/-- The keystroke an event is turned into. -/
def keystrokeOf (s : InputWindow) (event : PlatformInput) : Option Keystroke :=
  (s.dispatchEvent event).2.bind KeyEvent.keystroke

end InputWindow

/-! ## What the flag is for -/

/-- The modifier keys. -/
inductive ModifierKey where
  | shift
  | control
  | alt
  | platform
  | function
deriving DecidableEq, Repr

namespace ModifierKey

def all : List ModifierKey := [shift, control, alt, platform, function]

/-- The set of one modifier. -/
def only : ModifierKey → Modifiers
  | shift    => { Modifiers.none with shift := true }
  | control  => { Modifiers.none with control := true }
  | alt      => { Modifiers.none with alt := true }
  | platform => { Modifiers.none with platform := true }
  | function => { Modifiers.none with function := true }

/-- The keystroke that a lone press and release of the modifier makes. -/
def keystroke (m : ModifierKey) : Keystroke where
  modifiers := Modifiers.none
  key := ((ModifierState.loneKey m.only).getD [])
  keyChar := none

theorem keystroke_injective {m m' : ModifierKey} (h : m.keystroke = m'.keystroke) : m = m' := by
  revert h
  cases m <;> cases m' <;> decide

@[simp]
theorem numberOfModifiers_only (m : ModifierKey) : m.only.numberOfModifiers = 1 := by
  cases m <;> rfl

end ModifierKey

variable {modifiers : Modifiers}

theorem Modifiers.numberOfModifiers_eq_zero :
    modifiers.numberOfModifiers = 0 ↔ modifiers = Modifiers.none := by
  obtain ⟨control, alt, shift, platform, function⟩ := modifiers
  revert control alt shift platform function
  decide

theorem Modifiers.numberOfModifiers_eq_one :
    modifiers.numberOfModifiers = 1 ↔ ∃ m : ModifierKey, modifiers = m.only := by
  constructor
  · intro h
    have hall : ∀ control alt shift platform function : Bool,
        (Modifiers.mk control alt shift platform function).numberOfModifiers = 1 →
          ∃ m ∈ ModifierKey.all, Modifiers.mk control alt shift platform function = m.only := by
      decide
    obtain ⟨m, _, hm⟩ := hall _ _ _ _ _ h
    exact ⟨m, hm⟩
  · rintro ⟨m, rfl⟩
    exact m.numberOfModifiers_only

/-! ## Gestures -/

namespace PlatformInput

/-- The set that the modifiers change to. -/
def change : PlatformInput → Option Modifiers
  | modifiersChanged modifiers _ => some modifiers
  | _                            => none

/-- The modifiers change to the empty set. -/
def isRelease (event : PlatformInput) : Bool := event.change == some Modifiers.none

def isKeyDown : PlatformInput → Bool
  | keyDown _ => true
  | _         => false

/-- Input that a lone modifier must not see. -/
def isOtherInput : PlatformInput → Bool
  | keyDown _     => true
  | mouseDown _   => true
  | scrollWheel _ => true
  | _             => false

end PlatformInput

open PlatformInput

def changes (events : List PlatformInput) : List Modifiers := events.filterMap change

/-- The events since the modifiers last changed to the empty set. -/
def sinceRelease (events : List PlatformInput) : List PlatformInput :=
  events.rtakeWhile fun event => !event.isRelease

/-- The events since the last one at which no modifier was held: from the press on. -/
def gesture (events : List PlatformInput) : List PlatformInput :=
  (sinceRelease events).dropWhile fun event => event.change.isNone

/-- The modifier was pressed, and there was nothing but this modifier. -/
structure Lone (m : ModifierKey) (events : List PlatformInput) : Prop where
  pressed : changes events ≠ []
  only : ∀ modifiers ∈ changes events, modifiers = m.only
  quiet : ∀ event ∈ events, event.isOtherInput = false

/-- There was a key, or more than one modifier at once. -/
def Noticed (events : List PlatformInput) : Prop :=
  (∃ event ∈ events, event.isKeyDown = true) ∨
    ∃ modifiers ∈ changes events, 1 < modifiers.numberOfModifiers

/-- There was no input of keys and mouse, and the modifiers were always the same. -/
structure Undisturbed (events : List PlatformInput) : Prop where
  quiet : ∀ event ∈ events, event.isOtherInput = false
  same : ∀ modifiers ∈ changes events, ∀ modifiers' ∈ changes events, modifiers = modifiers'

theorem undisturbed_nil : Undisturbed [] := ⟨by simp, by simp [changes]⟩

theorem changes_append (events events' : List PlatformInput) :
    changes (events ++ events') = changes events ++ changes events' :=
  filterMap_append

theorem noticed_append (events events' : List PlatformInput) :
    Noticed (events ++ events') ↔ Noticed events ∨ Noticed events' := by
  unfold Noticed
  simp only [changes_append, mem_append, or_and_right, exists_or]
  exact or_or_or_comm

variable {event : PlatformInput} {events : List PlatformInput} {state : ModifierState}

theorem isOtherInput_of_isKeyDown (h : event.isKeyDown = true) :
    event.isOtherInput = true := by
  cases event <;> simp_all [isKeyDown, isOtherInput]

/-! ### One more event -/

theorem gesture_release (h : event.isRelease = true)
    (events : List PlatformInput) : gesture (events ++ [event]) = [] := by
  simp [gesture, sinceRelease, h]

theorem gesture_press (hrelease : event.isRelease = false)
    (hchange : event.change.isSome = true) (events : List PlatformInput) :
    gesture (events ++ [event]) = gesture events ++ [event] := by
  have hnone : event.change.isNone = false := by
    rw [Option.isNone_eq_false_iff]
    exact hchange
  unfold gesture sinceRelease
  rw [rtakeWhile_concat_pos _ _ _ (by simp [hrelease]), dropWhile_append]
  split
  · next hnil => simp [isEmpty_iff.1 hnil, hnone]
  · rfl

theorem gesture_other (h : event.change = none) (events : List PlatformInput) :
    gesture (events ++ [event]) = if gesture events = [] then [] else gesture events ++ [event] := by
  have hrelease : event.isRelease = false := by simp [isRelease, h]
  unfold gesture sinceRelease
  rw [rtakeWhile_concat_pos _ _ _ (by simp [hrelease]), dropWhile_append]
  simp only [List.isEmpty_iff]
  split
  · simp [h]
  · rfl

theorem changes_gesture (events : List PlatformInput) :
    changes (gesture events) = changes (sinceRelease events) := by
  unfold gesture changes
  induction sinceRelease events with
  | nil => rfl
  | cons event rest ih =>
    cases h : event.change with
    | none => simpa [dropWhile_cons, h] using ih
    | some modifiers => simp [h]

theorem changes_gesture_ne_none (h : modifiers ∈ changes (gesture events)) :
    modifiers.numberOfModifiers ≠ 0 := by
  rw [changes_gesture] at h
  obtain ⟨event, hevent, hchange⟩ := mem_filterMap.1 h
  have hrelease := mem_rtakeWhile_imp hevent
  intro hzero
  rw [Modifiers.numberOfModifiers_eq_zero] at hzero
  simp [isRelease, hchange, hzero] at hrelease

/-- A gesture starts with a press. -/
theorem changes_gesture_eq_nil :
    changes (gesture events) = [] ↔ gesture events = [] := by
  constructor
  · intro h
    unfold gesture at h ⊢
    cases hdrop : (sinceRelease events).dropWhile fun event => event.change.isNone with
    | nil => rfl
    | cons event rest =>
      have hhead := head?_dropWhile_not (fun event => event.change.isNone)
        (sinceRelease events)
      rw [hdrop] at h hhead
      cases hchange : event.change with
      | none => simp [hchange] at hhead
      | some modifiers => simp [changes, hchange] at h
  · intro h
    rw [h]
    rfl

/-! ## What the window keeps of a gesture -/

/-- The last set of the gesture, and whether the window noticed something. -/
structure Sums (events : List PlatformInput) (state : ModifierState) : Prop where
  idle : gesture events = [] → state.modifiers = Modifiers.none
  last : gesture events ≠ [] → ∃ front, changes (gesture events) = front ++ [state.modifiers]
  flag : gesture events ≠ [] → (state.sawOtherInput = true ↔ Noticed (gesture events))

theorem Sums.ne_none
    (h : Sums events state) (hne : gesture events ≠ []) :
    state.modifiers.numberOfModifiers ≠ 0 := by
  obtain ⟨front, hfront⟩ := h.last hne
  exact changes_gesture_ne_none (by rw [hfront]; simp)

/-- A change of the modifiers. -/
theorem Sums.change
    (h : Sums events state) (modifiers : Modifiers) (capslock : Bool) :
    Sums (events ++ [.modifiersChanged modifiers capslock]) (state.change modifiers) := by
  by_cases hzero : modifiers = Modifiers.none
  · -- a release
    have hrelease : isRelease (.modifiersChanged modifiers capslock) = true := by
      simp [isRelease, PlatformInput.change, hzero]
    have hnil := gesture_release hrelease events
    exact ⟨fun _ => hzero, fun hne => absurd hnil hne, fun hne => absurd hnil hne⟩
  · have hrelease : isRelease (.modifiersChanged modifiers capslock) = false := by
      simp [isRelease, PlatformInput.change, hzero]
    have hgesture := gesture_press hrelease rfl events
    have hpos : modifiers.numberOfModifiers ≠ 0 :=
      fun h => hzero (Modifiers.numberOfModifiers_eq_zero.1 h)
    have hevent : Noticed [PlatformInput.modifiersChanged modifiers capslock] ↔
        1 < modifiers.numberOfModifiers := by
      simp [Noticed, changes, PlatformInput.change, isKeyDown]
    refine ⟨fun hnil => absurd hnil (by simp [hgesture]), fun _ => ?_, fun _ => ?_⟩
    · exact ⟨changes (gesture events), by
        rw [hgesture, changes_append]
        rfl⟩
    · rw [hgesture, noticed_append, hevent]
      unfold ModifierState.change
      by_cases hnil : gesture events = []
      · -- a press: what came before it does not count
        have hnot : ¬ Noticed (gesture events) := by simp [hnil, Noticed, changes]
        have hidle := Modifiers.numberOfModifiers_eq_zero.2 (h.idle hnil)
        by_cases hone : modifiers.numberOfModifiers = 1
        · simp [hidle, hone, hnot]
        · have hmore : 1 < modifiers.numberOfModifiers := by omega
          simp [hidle, hone, hmore]
      · have hheld := h.ne_none hnil
        have hflag := h.flag hnil
        by_cases hmore : 1 < modifiers.numberOfModifiers
        · simp [hheld, hmore]
        · simp [hheld, hmore, hflag]

/-- An event that is no change, when the window keeps `state'` after it. -/
theorem Sums.other {state' : ModifierState} (h : Sums events state) (hchange : event.change = none)
    (hmodifiers : state'.modifiers = state.modifiers) (hflag : state'.sawOtherInput = true ↔
      state.sawOtherInput = true ∨ event.isKeyDown = true) :
    Sums (events ++ [event]) state' := by
  have hgesture := gesture_other hchange events
  by_cases hnil : gesture events = []
  · rw [if_pos hnil] at hgesture
    exact ⟨fun _ => hmodifiers.trans (h.idle hnil), fun hne => absurd hgesture hne,
      fun hne => absurd hgesture hne⟩
  · rw [if_neg hnil] at hgesture
    refine ⟨fun hnil => absurd hnil (by simp [hgesture]), fun _ => ?_, fun _ => ?_⟩
    · obtain ⟨front, hfront⟩ := h.last hnil
      refine ⟨front, ?_⟩
      rw [hgesture, changes_append, hfront, hmodifiers]
      simp [changes, hchange]
    · rw [hgesture, noticed_append, hflag, h.flag hnil]
      simp [Noticed, changes, hchange]

namespace InputWindow

theorem run_append (s : InputWindow) (events : List PlatformInput) (event : PlatformInput) :
    s.run (events ++ [event]) = ((s.run events).dispatchEvent event).1 := by
  simp [run]

@[simp]
theorem track_pendingModifier (s : InputWindow) (event : PlatformInput) :
    (s.track event).pendingModifier = s.pendingModifier := by
  cases event <;> rfl

/-- What each event does to the pending modifier. -/
theorem dispatchEvent_pendingModifier (s : InputWindow) (event : PlatformInput) :
    (s.dispatchEvent event).1.pendingModifier =
      match event with
      | .modifiersChanged modifiers _ => s.pendingModifier.change modifiers
      | .keyDown _                    => { s.pendingModifier with sawOtherInput := true }
      | _                             => s.pendingModifier := by
  cases event <;> simp [dispatchEvent, isKeyboardEvent, dispatchKeyEvent]

/-- One event. -/
theorem sums_dispatchEvent {s : InputWindow} (h : Sums events s.pendingModifier)
    (event : PlatformInput) :
    Sums (events ++ [event]) (s.dispatchEvent event).1.pendingModifier := by
  rw [dispatchEvent_pendingModifier]
  cases event with
  | modifiersChanged modifiers capslock => exact h.change modifiers capslock
  | keyDown _ | _ => exact h.other rfl rfl (by simp [isKeyDown])

/-- A run. -/
theorem sums_run (modifiers : Modifiers) (capslock : Bool) (events : List PlatformInput) :
    Sums events ((new modifiers capslock).run events).pendingModifier := by
  induction events using List.reverseRecOn with
  | nil => exact ⟨fun _ => rfl, fun hne => absurd rfl hne, fun hne => absurd rfl hne⟩
  | append_singleton events event ih =>
    rw [run_append]
    exact sums_dispatchEvent ih event

/-! ## Lone modifiers -/

theorem loneKey_only (m : ModifierKey) : ModifierState.loneKey m.only = some m.keystroke.key := by
  cases m <;> rfl

/-- The keystroke that a change to the empty set makes. -/
theorem keystrokeOf_release (s : InputWindow) (capslock : Bool) :
    s.keystrokeOf (.modifiersChanged Modifiers.none capslock) =
      s.pendingModifier.keystroke Modifiers.none := by
  unfold keystrokeOf dispatchEvent dispatchKeyEvent
  simp only [isKeyboardEvent, if_true, track_pendingModifier]
  cases s.pendingModifier.keystroke Modifiers.none <;> rfl

theorem keystroke_eq_some {m : ModifierKey} :
    state.keystroke Modifiers.none = some m.keystroke ↔
      state.modifiers = m.only ∧ state.sawOtherInput = false := by
  have hnone : Modifiers.none.numberOfModifiers = 0 := rfl
  unfold ModifierState.keystroke
  simp only [hnone, true_and]
  constructor
  · intro h
    split at h
    · next hone =>
      obtain ⟨m', hm'⟩ := Modifiers.numberOfModifiers_eq_one.1 hone.1
      rw [hm', loneKey_only, Option.map_some, Option.some.injEq] at h
      have hm : m' = m := ModifierKey.keystroke_injective h
      exact ⟨hm' ▸ hm ▸ rfl, hone.2⟩
    · cases h
  · rintro ⟨hmodifiers, hflag⟩
    rw [hmodifiers, loneKey_only, m.numberOfModifiers_only, hflag]
    rfl

/-- In a run, the keystroke of a modifier is made where the gesture ends with the modifier
    and nothing was noticed in it. -/
theorem keystrokeOf_run (modifiers : Modifiers) (capslock : Bool) (events : List PlatformInput)
    (m : ModifierKey) (capslock' : Bool) :
    ((new modifiers capslock).run events).keystrokeOf
        (.modifiersChanged Modifiers.none capslock') = some m.keystroke ↔
      ¬ Noticed (gesture events) ∧ ∃ front, changes (gesture events) = front ++ [m.only] := by
  have hsums := sums_run modifiers capslock events
  rw [keystrokeOf_release, keystroke_eq_some]
  by_cases hnil : gesture events = []
  · -- no modifier is held
    have hheld : m.only ≠ Modifiers.none := by cases m <;> decide
    have hempty : changes (gesture events) = [] := changes_gesture_eq_nil.2 hnil
    constructor
    · rintro ⟨hmodifiers, -⟩
      exact absurd (hmodifiers.symm.trans (hsums.idle hnil)) hheld
    · rintro ⟨-, front, hfront⟩
      simp [hempty] at hfront
  · obtain ⟨front, hfront⟩ := hsums.last hnil
    rw [← hsums.flag hnil, Bool.not_eq_true, hfront]
    constructor
    · rintro ⟨hmodifiers, hflag⟩
      exact ⟨hflag, front, by rw [hmodifiers]⟩
    · rintro ⟨hflag, front', hfront'⟩
      have hlast := append_inj_right' hfront' rfl
      exact ⟨singleton_inj.1 hlast, hflag⟩

/-- What a window makes of a gesture is what a lone modifier is, exactly where the window
    noticed the gesture's other input or there was none.  `events` may have more events than
    the gesture, if their changes are the same. -/
theorem lone_iff {held : List PlatformInput} (hsubset : held ⊆ events)
    (hchanges : changes held = changes events)
    (hpos : ∀ modifiers ∈ changes held, modifiers.numberOfModifiers ≠ 0) :
    (∀ m : ModifierKey, (¬ Noticed held ∧ ∃ front, changes held = front ++ [m.only]) ↔
        Lone m events) ↔
      changes held = [] ∨ Noticed held ∨ Undisturbed events := by
  constructor
  · intro hiff
    by_cases hnil : changes held = []
    · exact .inl hnil
    by_cases hnoticed : Noticed held
    · exact .inr (.inl hnoticed)
    -- the last set is that of one modifier, so the window makes its keystroke
    obtain ⟨front, last, hlast⟩ : ∃ front last, changes held = front ++ [last] :=
      ⟨_, _, (dropLast_append_getLast hnil).symm⟩
    have hmem : last ∈ changes held := by rw [hlast]; simp
    have hone : last.numberOfModifiers = 1 := by
      have hle : ¬ 1 < last.numberOfModifiers := fun h => hnoticed (.inr ⟨last, hmem, h⟩)
      have hne := hpos last hmem
      omega
    obtain ⟨m, rfl⟩ := Modifiers.numberOfModifiers_eq_one.1 hone
    have hlone := (hiff m).1 ⟨hnoticed, front, hlast⟩
    right; right
    exact ⟨hlone.quiet, fun modifiers h modifiers' h' => by
      rw [hlone.only modifiers h, hlone.only modifiers' h']⟩
  · intro hcondition m
    constructor
    · rintro ⟨hnot, front, hfront⟩
      have hmem : m.only ∈ changes events := by rw [← hchanges, hfront]; simp
      rcases hcondition with hnil | hnoticed | hundisturbed
      · simp [hnil] at hfront
      · exact absurd hnoticed hnot
      · exact ⟨ne_nil_of_mem hmem, fun modifiers h => hundisturbed.same _ h _ hmem,
          hundisturbed.quiet⟩
    · intro hlone
      rw [hchanges]
      constructor
      · -- nothing could be noticed
        rintro (⟨event, hevent, hkey⟩ | ⟨modifiers, hmodifiers, hmore⟩)
        · have hquiet := hlone.quiet event (hsubset hevent)
          rw [isOtherInput_of_isKeyDown hkey] at hquiet
          cases hquiet
        · rw [hchanges] at hmodifiers
          rw [hlone.only modifiers hmodifiers, m.numberOfModifiers_only] at hmore
          omega
      · obtain ⟨front, last, hlast⟩ : ∃ front last, changes events = front ++ [last] :=
          ⟨_, _, (dropLast_append_getLast hlone.pressed).symm⟩
        have honly : last = m.only := hlone.only last (by rw [hlast]; simp)
        exact ⟨front, by rw [hlast, honly]⟩

/-- The keystroke of a modifier is made exactly for a lone press and release of it if, and only
    if, the gesture has a key or more than one modifier at once, or it has no input of the mouse
    and one set of modifiers.  The second part is for all events since the last release, with
    those before the press. -/
theorem lone_modifier_iff (modifiers : Modifiers) (capslock : Bool)
    (events : List PlatformInput) (capslock' : Bool) :
    ((∀ m : ModifierKey, ((new modifiers capslock).run events).keystrokeOf
          (.modifiersChanged Modifiers.none capslock') = some m.keystroke ↔
        Lone m (gesture events)) ↔
      Noticed (gesture events) ∨ Undisturbed (gesture events)) ∧
    ((∀ m : ModifierKey, ((new modifiers capslock).run events).keystrokeOf
          (.modifiersChanged Modifiers.none capslock') = some m.keystroke ↔
        Lone m (sinceRelease events)) ↔
      gesture events = [] ∨ Noticed (gesture events) ∨ Undisturbed (sinceRelease events)) := by
  have hpos : ∀ modifiers ∈ changes (gesture events), modifiers.numberOfModifiers ≠ 0 :=
    fun _ => changes_gesture_ne_none
  simp only [keystrokeOf_run]
  constructor
  · rw [lone_iff (fun _ h => h) rfl hpos]
    constructor
    · rintro (hnil | h)
      · rw [changes_gesture_eq_nil] at hnil
        simp [hnil, undisturbed_nil]
      · exact h
    · exact .inr
  · have hsubset : gesture events ⊆ sinceRelease events := dropWhile_subset _
    rw [lone_iff hsubset (changes_gesture events) hpos, changes_gesture_eq_nil]

/-- A click with the shift key held. -/
theorem lone_modifier_click :
    ¬ ∀ (events : List PlatformInput) (m : ModifierKey),
      ((new Modifiers.none false).run events).keystrokeOf
          (.modifiersChanged Modifiers.none false) = some m.keystroke ↔
        Lone m (gesture events) := by
  intro h
  have hmade := (h [.modifiersChanged ModifierKey.shift.only false,
    .mouseDown ModifierKey.shift.only, .mouseUp ModifierKey.shift.only] .shift).1 (by decide)
  have hquiet := hmade.quiet (.mouseDown ModifierKey.shift.only) (by decide)
  cases hquiet

end InputWindow

end Gpui
