import Gpui.Elements.Clicks
import Gpui.Keymap.Binding
import Gpui.Lib.History

/-! # Keyboard clicks: the model

    While an element has the focus, the press and release of enter or space make a click.
    The listeners remember the press by the generation of the focus, which counts the moves of
    the focus.  Listeners are called for the element that had the focus when the frame was
    painted, and before a key event a frame is painted if need be.

    A key event may not reach the listeners: it is stopped or handled before, or runs an
    action.  Changes of the modifiers are key events that have listeners of their own. -/

namespace Gpui

def Modifiers.modified (self : Modifiers) : Bool :=
  self.control || self.alt || self.shift || self.platform || self.function

namespace KeyClicks

open Clicks (Interactivity)

inductive KeyboardButton where
  | enter
  | space
deriving DecidableEq, Repr

def keyboardButton (key : Text) : Option KeyboardButton :=
  if key = "enter".toList then some .enter
  else if key = "space".toList then some .space
  else none

/-- The generation of the focus at a press.  After the comment follows its history. -/
structure PendingKeyboardDown where
  focusGeneration : Nat
  -- the key, and when it was pressed
  key : Text
  time : Nat

/-- A click that a listener was called with.  After the comment follows its history. -/
structure Delivery where
  listener : Nat
  button : KeyboardButton
  -- the key that was released, and when it was pressed and released
  key : Text
  down : Nat
  up : Nat

/-- What happened in the window. -/
inductive Event where
  /-- A press, and whether the element received it without modifiers. -/
  | keyDown (key : Text) (received : Bool)
  | keyUp (key : Text)
  | modifiersChanged
  | focusMoved
  | other
deriving DecidableEq, Repr

structure State where
  pendingKeyboardDown : Option PendingKeyboardDown
  /-- Of 64 bits. -/
  focusGeneration : Nat
  /-- Whether the element has the focus. -/
  focused : Bool
  /-- Whether its listeners for keys were painted. -/
  listening : Bool
  /-- Whether the window has to be painted. -/
  dirty : Bool
  -- what happened so far, and the clicks that were delivered
  history : List Event
  delivered : List Delivery

/-- A key event reaches the listeners unless it is stopped or handled before. -/
inductive Action where
  | keyDown (keystroke : Keystroke) (reaches : Bool)
  | keyUp (keystroke : Keystroke) (reaches : Bool)
  | modifiersChanged
  /-- The focus moves to the element or to another one. -/
  | focus (toElement : Bool)
  | redraw

namespace State

def new : State where
  pendingKeyboardDown := none
  focusGeneration := 0
  focused := false
  listening := false
  dirty := true
  history := []
  delivered := []

/-- The next event. -/
def now (s : State) : Nat := s.history.length

def note (s : State) (event : Event) : State := { s with history := s.history ++ [event] }

variable (listeners : Interactivity)

def redraw (s : State) : State :=
  { s with listening := s.focused && listeners.listens, dirty := false }

/-- The frame that a key event goes to. -/
def drawn (s : State) : State := if s.dirty then s.redraw listeners else s

def isActivationKey (keystroke : Keystroke) : Bool :=
  (keystroke.key = "enter".toList || keystroke.key = "space".toList) &&
    !keystroke.modifiers.modified

def keyDown (s : State) (keystroke : Keystroke) (reaches : Bool) : State :=
  if s.listening && reaches then
    { s with
      pendingKeyboardDown :=
        if isActivationKey keystroke then some ⟨s.focusGeneration, keystroke.key, s.now⟩
        else none }
  else s

/-- The calls of the listeners with a click. -/
def deliveries (button : KeyboardButton) (key : Text) (down up : Nat) : List Delivery :=
  (List.range listeners.clickListeners).map (fun listener => ⟨listener, button, key, down, up⟩)

/-- The release of an activation key, after the press was forgotten. -/
def activate (s : State) (pending : Option PendingKeyboardDown) (button : KeyboardButton)
    (key : Text) : State :=
  match pending with
  | some pending =>
      if pending.focusGeneration = s.focusGeneration then
        { s with
          delivered := s.delivered ++ deliveries listeners button key pending.time s.now }
      else s
  | none => s

def keyUp (s : State) (keystroke : Keystroke) (reaches : Bool) : State :=
  if s.listening && reaches then
    match keyboardButton keystroke.key with
    | some button =>
        if keystroke.modifiers.modified then { s with pendingKeyboardDown := none }
        else
          activate listeners { s with pendingKeyboardDown := none } s.pendingKeyboardDown button
            keystroke.key
    | none => { s with pendingKeyboardDown := none }
  else s

/-- `wrapping_add(1)` -/
def nextGeneration (generation : Nat) : Nat := (generation + 1) % 2 ^ 64

def moveFocus (s : State) (toElement : Bool) : State :=
  { s with
    focusGeneration := nextGeneration s.focusGeneration
    focused := toElement
    dirty := true }

def step (s : State) : Action → Option (Run State)
  | .keyDown keystroke reaches =>
      let s := s.drawn listeners
      some (.ok ((s.keyDown keystroke reaches).note
        (.keyDown keystroke.key (s.listening && reaches && !keystroke.modifiers.modified))))
  | .keyUp keystroke reaches =>
      some (.ok (((s.drawn listeners).keyUp listeners keystroke reaches).note
        (.keyUp keystroke.key)))
  | .modifiersChanged => some (.ok ((s.drawn listeners).note .modifiersChanged))
  | .focus toElement =>
      -- nothing moves if the element has the focus already
      if toElement && s.focused then some (.ok (s.note .other))
      else some (.ok ((s.moveFocus toElement).note .focusMoved))
  | .redraw => some (.ok ((s.redraw listeners).note .other))

end State

def machine (listeners : Interactivity) : Machine Panic State Action where
  start := .new
  step := State.step listeners

end KeyClicks

end Gpui

/-! # Keyboard clicks need an undisturbed press

    A key that is released makes a click if the element received its press, and no other key
    event and no move of the focus came between.  The code remembers the focus of the press
    and forgets the key, and sees only the key events that reach it.

    * **`keyClicks_undisturbed`**: the clicks are right in the runs in which, while the element
      has kept the focus since a press, all key events reach it, no modifier changes and no
      other activation key is released, and in which the focus does not come back when its
      generation does; and in these runs only. -/

namespace Gpui

namespace KeyClicks

open Clicks (Interactivity)

/-! ### Section 1: What clicks should be -/

/-- A key event, or a move of the focus. -/
def Event.Disturbs : Event → Prop
  | .other => False
  | _      => True

/-- The press of a key that the element received, and the release of the key. -/
structure Undisturbed (history : List Event) (d : Delivery) : Prop where
  pressed     : history[d.down]? = some (.keyDown d.key true)
  released    : history[d.up]? = some (.keyUp d.key)
  later       : d.down < d.up
  button      : keyboardButton d.key = some d.button
  undisturbed : History.NoneBetween Event.Disturbs history d.down d.up

/-- Every click is of such a press, and a press makes one click, which a listener gets once. -/
structure Good (s : State) : Prop where
  undisturbed : ∀ d ∈ s.delivered, Undisturbed s.history d
  once        : s.delivered.Pairwise (fun d d' =>
    d.down = d'.down → d.up = d'.up ∧ d.listener ≠ d'.listener)

/-! ### Section 2: When they are -/

variable (listeners : Interactivity)

/-- A press is remembered, and the generation of the focus is that of the press. -/
def State.Awaits (s : State) (press : PendingKeyboardDown) : Prop :=
  s.pendingKeyboardDown = some press ∧ press.focusGeneration = s.focusGeneration ∧
    s.focused = true ∧ 0 < listeners.clickListeners

/-- The condition on the steps. -/
def Heeds (s : State) : Action → Prop
  | .keyDown _ reaches => ∀ press, s.Awaits listeners press → reaches = true
  | .keyUp keystroke reaches =>
      ∀ press, s.Awaits listeners press →
        reaches = true ∧ (State.isActivationKey keystroke = true → keystroke.key = press.key)
  | .modifiersChanged => ∀ press, ¬ s.Awaits listeners press
  | .focus toElement =>
      ∀ press, s.pendingKeyboardDown = some press → toElement = true → s.focused = false →
        0 < listeners.clickListeners →
          State.nextGeneration s.focusGeneration ≠ press.focusGeneration
  | .redraw => True

/-! ### Section 3: The invariant -/

/-- The listeners are painted for the focus.  A press that is remembered made no click, and
    nothing disturbed it if the focus is that of the press. -/
structure Inv (s : State) : Prop extends Good s where
  painted   : s.dirty = false → s.listening = (s.focused && listeners.listens)
  pending   : ∀ press, s.pendingKeyboardDown = some press →
    s.history[press.time]? = some (.keyDown press.key true)
  activates : ∀ press, s.pendingKeyboardDown = some press →
    ∃ button, keyboardButton press.key = some button
  unclicked : ∀ press, s.pendingKeyboardDown = some press →
    ∀ d ∈ s.delivered, d.down ≠ press.time
  calm      : ∀ press, s.Awaits listeners press →
    History.NoneAfter Event.Disturbs s.history press.time

variable {listeners}

/-- A click stays what it is. -/
theorem Undisturbed.note {history : List Event} {d : Delivery} (h : Undisturbed history d)
    (event : Event) : Undisturbed (history ++ [event]) d where
  pressed := History.getElem?_concat h.pressed event
  released := History.getElem?_concat h.released event
  later := h.later
  button := h.button
  undisturbed := h.undisturbed.concat (History.lt_length h.released).le event

variable {s s' : State} {event : Event} {press : PendingKeyboardDown} {keystroke : Keystroke}
variable {button : KeyboardButton}

theorem Good.note (h : Good s) (event : Event) : Good (s.note event) where
  undisturbed := fun d hd => (h.undisturbed d hd).note event
  once := h.once

/-- Nothing happens to the press. -/
theorem Inv.note (h : Inv listeners s)
    (hcalm : ∀ press, s.Awaits listeners press → ¬ event.Disturbs) :
    Inv listeners (s.note event) where
  toGood := h.toGood.note event
  painted := h.painted
  pending := fun press hpress => History.getElem?_concat (h.pending press hpress) event
  activates := h.activates
  unclicked := h.unclicked
  calm := fun press hpress => (h.calm press hpress).concat (hcalm press hpress)

/-- The press is forgotten. -/
theorem Inv.forget (h : Inv listeners s) :
    Inv listeners { s with pendingKeyboardDown := none } where
  toGood := ⟨h.undisturbed, h.once⟩
  painted := h.painted
  pending := fun press hpress => by cases hpress
  activates := fun press hpress => by cases hpress
  unclicked := fun press hpress => by cases hpress
  calm := fun press hpress => by cases hpress.1

theorem inv_new : Inv listeners State.new where
  toGood := {
    undisturbed := fun d hd => nomatch hd
    once := List.Pairwise.nil }
  painted := fun h => by cases h
  pending := fun press hpress => by cases hpress
  activates := fun press hpress => by cases hpress
  unclicked := fun press hpress => by cases hpress
  calm := fun press hpress => by cases hpress.1

/-! ### Section 4: The steps -/

theorem Inv.redraw (h : Inv listeners s) : Inv listeners (s.redraw listeners) where
  toGood := ⟨h.undisturbed, h.once⟩
  painted := fun _ => rfl
  pending := h.pending
  activates := h.activates
  unclicked := h.unclicked
  calm := h.calm

theorem Inv.drawn (h : Inv listeners s) : Inv listeners (s.drawn listeners) := by
  unfold State.drawn
  split
  · exact h.redraw
  · exact h

theorem drawn_dirty (s : State) : (s.drawn listeners).dirty = false := by
  unfold State.drawn
  split
  · rfl
  · next hclean => simpa using hclean

theorem drawn_history (s : State) : (s.drawn listeners).history = s.history := by
  unfold State.drawn
  split <;> rfl

theorem keyUp_history (s : State) (keystroke : Keystroke) (reaches : Bool) :
    (s.keyUp listeners keystroke reaches).history = s.history := by
  unfold State.keyUp State.activate
  split
  · split
    · split
      · rfl
      · split
        · split <;> rfl
        · rfl
    · rfl
  · rfl

/-- A frame does not change what is awaited. -/
theorem awaits_drawn :
    (s.drawn listeners).Awaits listeners press ↔ s.Awaits listeners press := by
  unfold State.drawn
  split <;> exact Iff.rfl

theorem listens_of_pos (h : 0 < listeners.clickListeners) : listeners.listens = true := by
  unfold Interactivity.listens
  rw [decide_eq_true h]
  rfl

/-- The listeners of an element that awaits a release are called. -/
theorem Inv.listening (h : Inv listeners s) (hclean : s.dirty = false)
    (hpress : s.Awaits listeners press) : s.listening = true := by
  rw [h.painted hclean, hpress.2.2.1, listens_of_pos hpress.2.2.2]
  rfl

theorem activationKey_iff :
    State.isActivationKey keystroke = true ↔
      keystroke.modifiers.modified = false ∧
        ∃ button, keyboardButton keystroke.key = some button := by
  unfold State.isActivationKey keyboardButton
  by_cases henter : keystroke.key = "enter".toList
  · simp [henter]
  · by_cases hspace : keystroke.key = "space".toList
    · simp [hspace]
    · rw [if_neg henter, if_neg hspace, decide_eq_false henter, decide_eq_false hspace]
      simp

theorem Inv.keyDown (h : Inv listeners s) (hclean : s.dirty = false) {reaches : Bool}
    (hheeds : ∀ press, s.Awaits listeners press → reaches = true) :
    Inv listeners ((s.keyDown keystroke reaches).note
      (.keyDown keystroke.key
        (s.listening && reaches && !keystroke.modifiers.modified))) := by
  unfold State.keyDown
  by_cases hreached : (s.listening && reaches) = true
  · rw [if_pos hreached, hreached]
    by_cases hactivates : State.isActivationKey keystroke = true
    · -- the press is remembered, and nothing happened since
      obtain ⟨hmodified, hbutton⟩ := activationKey_iff.mp hactivates
      rw [if_pos hactivates, hmodified]
      constructor
      · exact ⟨fun d hd => (h.undisturbed d hd).note _, h.once⟩
      · exact h.painted
      · intro press hpress
        cases hpress
        exact List.getElem?_concat_length
      · intro press hpress
        cases hpress
        exact hbutton
      · intro press hpress d hd
        cases hpress
        exact (History.lt_length (h.undisturbed d hd).pressed).ne
      · intro press hpress
        obtain ⟨hpress, _⟩ := hpress
        cases hpress
        exact History.noneAfter_last _ _ _
    · rw [if_neg hactivates]
      exact h.forget.note (fun press hpress => by cases hpress.1)
  · rw [if_neg hreached]
    refine h.note (fun press hpress => ?_)
    rw [h.listening hclean hpress, hheeds press hpress] at hreached
    exact absurd rfl hreached

theorem mem_deliveries {key : Text} {down up : Nat} {d : Delivery} :
    d ∈ State.deliveries listeners button key down up ↔
      ∃ listener < listeners.clickListeners, ⟨listener, button, key, down, up⟩ = d := by
  simp [State.deliveries]

/-- The release of the key that was pressed makes a click. -/
theorem Inv.deliver (h : Inv listeners s) (hpress : s.Awaits listeners press)
    (hbutton : keyboardButton press.key = some button) :
    Inv listeners (State.note
      { s with
        pendingKeyboardDown := none
        delivered := s.delivered ++
          State.deliveries listeners button press.key press.time s.now }
      (.keyUp press.key)) := by
  have hpressed := h.pending press hpress.1
  have hlater : press.time < s.now := History.lt_length hpressed
  constructor
  · constructor
    · intro d hd
      obtain hold | hnew := List.mem_append.mp hd
      · exact (h.undisturbed d hold).note _
      · obtain ⟨listener, _, rfl⟩ := mem_deliveries.mp hnew
        constructor
        · exact History.getElem?_concat hpressed _
        · exact List.getElem?_concat_length
        · exact hlater
        · exact hbutton
        · exact (h.calm press hpress).between _
    · refine List.pairwise_append.mpr ⟨h.once, ?_, ?_⟩
      · rw [State.deliveries, List.pairwise_map]
        exact List.nodup_range.imp (fun hne _ => ⟨rfl, hne⟩)
      · intro d hd d' hd' hsame
        obtain ⟨listener, _, rfl⟩ := mem_deliveries.mp hd'
        exact absurd hsame (h.unclicked press hpress.1 d hd)
  · exact h.painted
  · exact fun press hpress => by cases hpress
  · exact fun press hpress => by cases hpress
  · exact fun press hpress => by cases hpress
  · exact fun press hpress => by cases hpress.1

theorem Inv.keyUp (h : Inv listeners s) (hclean : s.dirty = false) {reaches : Bool}
    (hheeds : Heeds listeners s (.keyUp keystroke reaches)) :
    Inv listeners ((s.keyUp listeners keystroke reaches).note (.keyUp keystroke.key)) := by
  have hforget : Inv listeners (State.note { s with pendingKeyboardDown := none }
      (.keyUp keystroke.key)) := h.forget.note (fun press hpress => by cases hpress.1)
  unfold State.keyUp
  by_cases hreached : (s.listening && reaches) = true
  · rw [if_pos hreached]
    cases hbutton : keyboardButton keystroke.key with
    | none => exact hforget
    | some button =>
      dsimp only
      split
      · exact hforget
      · next hmodified =>
        cases hpending : s.pendingKeyboardDown with
        | none => exact hforget
        | some press =>
          unfold State.activate
          dsimp only
          split
          · next hsame =>
            -- without listeners for clicks nothing is called
            by_cases hpos : 0 < listeners.clickListeners
            · have hfocused : s.focused = true := by
                have hlistening := (Bool.and_eq_true _ _ ▸ hreached).1
                rw [h.painted hclean] at hlistening
                exact (Bool.and_eq_true _ _ ▸ hlistening).1
              have hawaits : s.Awaits listeners press := ⟨hpending, hsame, hfocused, hpos⟩
              have hkey := (hheeds press hawaits).2
                (activationKey_iff.mpr ⟨by simpa using hmodified, button, hbutton⟩)
              rw [hkey] at hbutton ⊢
              exact h.deliver hawaits hbutton
            · have hnone : ∀ down up,
                  State.deliveries listeners button keystroke.key down up = [] := by
                intro down up
                rw [State.deliveries, Nat.eq_zero_of_not_pos hpos]
                rfl
              rw [hnone, List.append_nil]
              exact hforget
          · exact hforget
  · rw [if_neg hreached]
    refine h.note (fun press hpress => ?_)
    rw [h.listening hclean hpress, (hheeds press hpress).1] at hreached
    exact absurd rfl hreached

theorem inv_step {a : Action} (h : Inv listeners s)
    (hheeds : Heeds listeners s a) (hstep : s.step listeners a = some (.ok s')) :
    Inv listeners s' := by
  cases a with
  | keyDown keystroke reaches =>
    cases hstep
    exact h.drawn.keyDown (drawn_dirty s)
      (fun press hpress => hheeds press (awaits_drawn.mp hpress))
  | keyUp keystroke reaches =>
    cases hstep
    exact h.drawn.keyUp (drawn_dirty s)
      (fun press hpress => hheeds press (awaits_drawn.mp hpress))
  | modifiersChanged =>
    cases hstep
    exact h.drawn.note (fun press hpress => absurd (awaits_drawn.mp hpress) (hheeds press))
  | focus toElement =>
    unfold State.step at hstep
    dsimp only at hstep
    split at hstep
    · cases hstep
      exact h.note (fun _ _ hdisturbs => hdisturbs)
    · next hmoves =>
      cases hstep
      -- the generation of the focus is not that of the press
      have hleft : ∀ press, ¬ (s.moveFocus toElement).Awaits listeners press := by
        intro press hpress
        obtain ⟨hpending, hsame, hfocused, hpos⟩ := hpress
        have htoElement : toElement = true := hfocused
        have hunfocused : s.focused = false := by
          rw [htoElement, Bool.true_and] at hmoves
          simpa using hmoves
        exact hheeds press hpending htoElement hunfocused hpos hsame.symm
      exact {
        toGood := ⟨fun d hd => (h.undisturbed d hd).note _, h.once⟩
        painted := fun hclean => by cases hclean
        pending := fun press hpress => History.getElem?_concat (h.pending press hpress) _
        activates := h.activates
        unclicked := h.unclicked
        calm := fun press hpress => absurd hpress (hleft press) }
  | redraw =>
    cases hstep
    exact h.redraw.note (fun _ _ hdisturbs => hdisturbs)

theorem inv_inductive (listeners : Interactivity) :
    (machine listeners).Inductive (Heeds listeners) (Inv listeners) where
  start := inv_new
  step := fun _ _ _ h hheeds hstep => inv_step h hheeds hstep

/-! ### Section 5: Steps that spoil a run -/

/-- The release of the key of a press reaches the element. -/
def release (press : PendingKeyboardDown) : Action :=
  .keyUp ⟨Modifiers.none, press.key, none⟩ true

/-- The click that a release makes. -/
theorem mem_delivered
    (hpress : s.Awaits listeners press) (hlistening : s.listening = true) (keystroke : Keystroke)
    (hmodified : keystroke.modifiers.modified = false)
    (hbutton : keyboardButton keystroke.key = some button) :
    ⟨0, button, keystroke.key, press.time, s.now⟩ ∈
      (s.keyUp listeners keystroke true).delivered := by
  obtain ⟨hpending, hsame, _, hpos⟩ := hpress
  have hmem : ⟨0, button, keystroke.key, press.time, s.now⟩ ∈
      State.deliveries listeners button keystroke.key press.time s.now :=
    mem_deliveries.mpr ⟨0, hpos, rfl⟩
  have hkeyUp : s.keyUp listeners keystroke true =
      { s with
        pendingKeyboardDown := none
        delivered := s.delivered ++
          State.deliveries listeners button keystroke.key press.time s.now } := by
    unfold State.keyUp State.activate
    rw [hlistening, hbutton, hpending, hmodified]
    simp only [Bool.and_true, if_true, Bool.false_eq_true, if_false]
    rw [if_pos hsame]
    rfl
  rw [hkeyUp]
  exact List.mem_append_right _ hmem

/-- A press that is kept over another event makes a bad click. -/
theorem Inv.spoils (h : Inv listeners s) (hpending : s.pendingKeyboardDown = some press)
    (hpress : s'.Awaits listeners press) (hlistening : (s'.drawn listeners).listening = true)
    (hhistory : s'.history = s.history ++ [event]) (hdisturbs : event.Disturbs) :
    ∃ actions s'', (machine listeners).Meets (Heeds listeners) s' actions ∧
      (machine listeners).run s' actions = some (.ok s'') ∧ ¬ Good s'' := by
  obtain ⟨button, hbutton⟩ := h.activates press hpending
  refine ⟨[release press],
    ((s'.drawn listeners).keyUp listeners ⟨Modifiers.none, press.key, none⟩ true).note
      (.keyUp press.key), ?_, rfl, ?_⟩
  · refine ⟨?_, fun _ _ => trivial⟩
    intro press' hpress'
    have hsame := hpress'.1
    rw [hpress.1] at hsame
    cases hsame
    exact ⟨rfl, fun _ => rfl⟩
  · intro hgood
    have hmem := mem_delivered (awaits_drawn.mpr hpress) hlistening
      ⟨Modifiers.none, press.key, none⟩ rfl hbutton
    have hevent : (((s'.drawn listeners).keyUp listeners ⟨Modifiers.none, press.key, none⟩
        true).note (.keyUp press.key)).history[s.history.length]? = some event := by
      show (((s'.drawn listeners).keyUp listeners _ true).history ++ _)[s.history.length]? = _
      rw [keyUp_history, drawn_history, hhistory]
      exact History.getElem?_concat List.getElem?_concat_length _
    have hnow : s.history.length < (s'.drawn listeners).now := by
      rw [State.now, drawn_history, hhistory, List.length_append, List.length_singleton]
      exact Nat.lt_succ_self _
    exact (hgood.undisturbed _ hmem).undisturbed.not_at hevent
      (History.lt_length (h.pending press hpending)) hnow hdisturbs

/-- A key event that does not reach an element that awaits a release. -/
theorem Inv.spoils_missed (h : Inv listeners s)
    (hpress : s.Awaits listeners press) (hdisturbs : event.Disturbs) :
    ∃ actions s'', (machine listeners).Meets (Heeds listeners)
        ((s.drawn listeners).note event) actions ∧
      (machine listeners).run ((s.drawn listeners).note event) actions = some (.ok s'') ∧
        ¬ Good s'' := by
  have hawaits : (s.drawn listeners).Awaits listeners press := awaits_drawn.mpr hpress
  have hlistening := h.drawn.listening (drawn_dirty s) hawaits
  have hclean : ((s.drawn listeners).note event).dirty = false := drawn_dirty s
  have hdrawn : ((s.drawn listeners).note event).drawn listeners =
      (s.drawn listeners).note event := by
    rw [State.drawn, hclean]
    rfl
  refine h.drawn.spoils hawaits.1 hawaits ?_ rfl hdisturbs
  rw [hdrawn]
  exact hlistening

theorem inv_spoils {a : Action} (h : Inv listeners s)
    (hstep : s.step listeners a = some (.ok s')) (hnot : ¬ Heeds listeners s a) :
    ∃ actions s'', (machine listeners).Meets (Heeds listeners) s' actions ∧
      (machine listeners).run s' actions = some (.ok s'') ∧ ¬ Good s'' := by
  cases a with
  | keyDown keystroke reaches =>
    obtain ⟨press, hnot⟩ := not_forall.mp hnot
    obtain ⟨hpress, hnot⟩ := Classical.not_imp.mp hnot
    obtain rfl : reaches = false := by simpa using hnot
    cases hstep
    have hsame : (s.drawn listeners).keyDown keystroke false = s.drawn listeners := by
      rw [State.keyDown, Bool.and_false]
      rfl
    rw [hsame]
    exact h.spoils_missed hpress trivial
  | keyUp keystroke reaches =>
    obtain ⟨press, hnot⟩ := not_forall.mp hnot
    obtain ⟨hpress, hnot⟩ := Classical.not_imp.mp hnot
    cases hstep
    cases reaches with
    | false =>
      have hsame : (s.drawn listeners).keyUp listeners keystroke false = s.drawn listeners := by
        rw [State.keyUp, Bool.and_false]
        rfl
      rw [hsame]
      exact h.spoils_missed hpress trivial
    | true =>
      -- the key is not the one that was pressed
      obtain ⟨hactivates, hkey⟩ :
          State.isActivationKey keystroke = true ∧ keystroke.key ≠ press.key := by
        simpa [Classical.not_imp] using hnot
      obtain ⟨hmodified, button, hbutton⟩ := activationKey_iff.mp hactivates
      have hawaits : (s.drawn listeners).Awaits listeners press := awaits_drawn.mpr hpress
      have hmem := mem_delivered hawaits (h.drawn.listening (drawn_dirty s) hawaits) keystroke
        hmodified hbutton
      refine ⟨[], _, trivial, rfl, ?_⟩
      intro hgood
      have hpressed := (hgood.undisturbed _ hmem).pressed
      have hpending : (((s.drawn listeners).keyUp listeners keystroke true).note
          (.keyUp keystroke.key)).history[press.time]? = some (.keyDown press.key true) := by
        show (((s.drawn listeners).keyUp listeners _ true).history ++ _)[press.time]? = _
        rw [keyUp_history, drawn_history]
        exact History.getElem?_concat (h.pending press hpress.1) _
      rw [hpending] at hpressed
      have hsame : press.key = keystroke.key := by simpa using hpressed
      exact hkey hsame.symm
  | modifiersChanged =>
    obtain ⟨press, hpress⟩ := not_forall.mp hnot
    cases hstep
    exact h.spoils_missed (not_not.mp hpress) trivial
  | focus toElement =>
    obtain ⟨press, hnot⟩ := not_forall.mp hnot
    obtain ⟨hpending, hnot⟩ := Classical.not_imp.mp hnot
    obtain ⟨htoElement, hcomes⟩ := Classical.not_imp.mp hnot
    obtain ⟨hunfocused, hcomes⟩ := Classical.not_imp.mp hcomes
    obtain ⟨hpos, hcomes⟩ := Classical.not_imp.mp hcomes
    have hsame := not_not.mp hcomes
    subst htoElement
    have hmoved : s.step listeners (.focus true) =
        some (.ok ((s.moveFocus true).note .focusMoved)) := by
      rw [State.step, hunfocused]
      rfl
    rw [hmoved] at hstep
    cases hstep
    refine h.spoils hpending ⟨hpending, hsame.symm, rfl, hpos⟩ ?_ rfl trivial
    exact listens_of_pos hpos
  | redraw => exact absurd trivial hnot

/-! ### Section 6: The result -/

/-- **Keyboard clicks need an undisturbed press**: they are right in the runs in which no key
    event passes by an element that awaits a release, no other activation key is released and
    the generation of the focus does not come round; and in these runs only. -/
theorem keyClicks_undisturbed (listeners : Interactivity) :
    (machine listeners).Exact (Heeds listeners) Good := by
  apply (inv_inductive listeners).exact
  · intro s h
    exact h.toGood
  · intro s a s' h hstep hnot
    exact inv_spoils h hstep hnot

def key (name : String) : Keystroke := ⟨Modifiers.none, name.toList, none⟩

/-- Enter is pressed on an element that has the focus, and space is released. -/
def spaceAfterEnter : List Action :=
  [.focus true, .keyDown (key "enter") true, .keyUp (key "space") true]

/-- The release of space makes a click of the press of enter. -/
theorem spaceAfterEnter_clicks :
    ∃ s, (machine ⟨1, 0, false⟩).run State.new spaceAfterEnter = some (.ok s) ∧ ¬ Good s := by
  refine ⟨_, rfl, ?_⟩
  intro h
  have hpressed := (h.undisturbed _ List.mem_cons_self).pressed
  revert hpressed
  decide

end KeyClicks

end Gpui
