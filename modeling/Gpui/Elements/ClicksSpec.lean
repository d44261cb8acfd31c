import Gpui.Elements.Clicks
import Gpui.Lib.History

/-! # Clicks pair a press with a release

    A click that was delivered should be a press that the element received and the next
    release, of the same button, with no drag between.  The code remembers the press only, so
    that it has to be told of every release while it remembers one, and a drag that other code
    starts is noticed when the next frame is painted.

    * **`clicks_pair`**: the clicks are right in the runs in which, while a press is remembered
      that has listeners, releases reach the element when they are captured, those over it are
      of the button that was pressed and bubble up to it, and none comes after a drag was
      started; and in these runs only. -/

namespace Gpui

namespace Clicks

variable {X : Type}

/-! ### Section 1: What clicks should be -/

/-- A release, or the start of a drag. -/
def Event.Disturbs : Event → Prop
  | .released _ _ => True
  | .dragStarted  => True
  | _             => False

/-- A press and the release that belongs to it. -/
structure Paired (history : List Event) (d : Delivery X) : Prop where
  pressed     : history[d.event.down.time]? = some (.pressed d.event.down.button true)
  released    : history[d.event.up.time]? = some (.released d.event.up.button true)
  later       : d.event.down.time < d.event.up.time
  sameButton  : d.event.up.button = d.event.down.button
  undisturbed : History.NoneBetween Event.Disturbs history d.event.down.time d.event.up.time
  kind        : d.kind = if d.event.down.button = .left then .click else .auxClick

/-- Every click is such a pair, and a press makes one click, which a listener gets once. -/
structure Good (s : State X) : Prop where
  paired : ∀ d ∈ s.delivered, Paired s.history d
  once   : s.delivered.Pairwise (fun d d' =>
    d.event.down.time = d'.event.down.time →
      d.event.up.time = d'.event.up.time ∧ d.listener ≠ d'.listener)

/-! ### Section 2: When they are -/

variable (listeners : Interactivity)

/-- A press is remembered that makes a click. -/
def State.Awaits (s : State X) (press : MouseDownEvent X) : Prop :=
  s.pendingMouseDown = some press ∧
    0 < listeners.count (Interactivity.kindOf press.button)

/-- No drag was started since. -/
def State.Undragged (s : State X) (press : MouseDownEvent X) : Prop :=
  History.NoneAfter (· = .dragStarted) s.history press.time

/-- The condition on the steps. -/
def Heeds (s : State X) : Action X → Prop
  | .mouseUp button hovered captures bubbles =>
      ∀ press, s.Awaits listeners press →
        (s.Undragged press →
            captures = true ∧ (hovered = true → bubbles = true ∧ button = press.button)) ∧
          -- the press is still to be forgotten
          (¬ s.Undragged press → ¬ (hovered = true ∧ captures = true))
  | _ => True

/-! ### Section 3: The invariant -/

/-- Only a press without listeners was taken over and not delivered.  A press that is
    remembered made no click, and if it has listeners only a drag disturbed it. -/
structure Inv (s : State X) : Prop extends Good s where
  captured  : ∀ press, s.capturedMouseDown = some press →
    listeners.count (Interactivity.kindOf press.button) = 0
  pending   : ∀ press, s.pendingMouseDown = some press →
    s.history[press.time]? = some (.pressed press.button true)
  unclicked : ∀ press, s.pendingMouseDown = some press →
    ∀ d ∈ s.delivered, d.event.down.time ≠ press.time
  calm      : ∀ press, s.Awaits listeners press → s.Undragged press →
    History.NoneAfter Event.Disturbs s.history press.time

variable {listeners} {d : Delivery X}

/-- A click stays a pair. -/
theorem Paired.note {history : List Event} (h : Paired history d) (event : Event) :
    Paired (history ++ [event]) d where
  pressed := History.getElem?_concat h.pressed event
  released := History.getElem?_concat h.released event
  later := h.later
  sameButton := h.sameButton
  undisturbed := h.undisturbed.concat (History.lt_length h.released).le event
  kind := h.kind

variable {s : State X}

theorem Good.note (h : Good s) (event : Event) : Good (s.note event) where
  paired := fun d hd => (h.paired d hd).note event
  once := h.once

/-- Nothing happens to the press. -/
theorem Inv.note (h : Inv listeners s) {event : Event}
    (hcalm : ∀ press, s.Awaits listeners press → s.Undragged press → event.Disturbs →
      event = .dragStarted) :
    Inv listeners (s.note event) where
  toGood := h.toGood.note event
  captured := h.captured
  pending := fun press hpress => History.getElem?_concat (h.pending press hpress) event
  unclicked := h.unclicked
  calm := by
    intro press hpress hundragged
    have hbefore : s.Undragged press := History.NoneAfter.of_concat hundragged
    refine (h.calm press hpress hbefore).concat ?_
    intro hdisturbs
    -- a drag would be one since the press
    have hlast := History.NoneAfter.not_last hundragged
      (History.lt_length (h.pending press hpress.1))
    exact hlast (hcalm press hpress hbefore hdisturbs)

/-- The press is forgotten. -/
theorem Inv.forget (h : Inv listeners s) :
    Inv listeners { s with pendingMouseDown := none } where
  toGood := ⟨h.paired, h.once⟩
  captured := h.captured
  pending := fun press hpress => by cases hpress
  unclicked := fun press hpress => by cases hpress
  calm := fun press hpress => by cases hpress.1

/-- The drag and its listener are not told in the invariant. -/
theorem Inv.withDrag (h : Inv listeners s) (dragListener activeDrag : Bool) :
    Inv listeners { s with dragListener, activeDrag } :=
  ⟨⟨h.paired, h.once⟩, h.captured, h.pending, h.unclicked, h.calm⟩

theorem inv_new : Inv listeners (State.new listeners : State X) where
  toGood := {
    paired := fun d hd => nomatch hd
    once := List.Pairwise.nil }
  captured := fun press hpress => by cases hpress
  pending := fun press hpress => by cases hpress
  unclicked := fun press hpress => by cases hpress
  calm := fun press hpress => by cases hpress.1

/-! ### Section 4: The steps -/

theorem Inv.mouseDown (h : Inv listeners s) (button : MouseButton)
    (position : Point X) (hovered bubbles : Bool) :
    Inv listeners ((s.mouseDown listeners button position hovered bubbles).note
      (.pressed button (bubbles && hovered))) := by
  unfold State.mouseDown
  split
  · next hreceived =>
    simp only [Bool.and_eq_true] at hreceived
    obtain ⟨⟨hbubbles, _⟩, hhovered⟩ := hreceived
    rw [hbubbles, hhovered]
    have hnow : (s.history ++ [Event.pressed button (true && true)])[s.now]? =
        some (.pressed button true) := by
      rw [State.now, List.getElem?_concat_length]
      rfl
    constructor
    · exact ⟨fun d hd => (h.paired d hd).note _, h.once⟩
    · exact h.captured
    · intro press hpress
      cases hpress
      exact hnow
    · intro press hpress d hd
      cases hpress
      exact (History.lt_length (h.paired d hd).pressed).ne
    · -- nothing happened since
      intro press hpress _
      obtain ⟨hpress, _⟩ := hpress
      cases hpress
      exact History.noneAfter_last _ _ _
  · exact h.note (fun _ _ _ hdisturbs => hdisturbs.elim)

section Moves

variable [Field X] [LinearOrder X]

/-- What a move does. -/
theorem mouseMove_cases (s : State X) (position : Point X) (bubbles : Bool) :
    (∃ dragListener, s.mouseMove position bubbles = { s with dragListener } ∧
        s.startsDrag position bubbles = false) ∨
      s.mouseMove position bubbles =
        { s with pendingMouseDown := none, dragListener := false, activeDrag := true } := by
  unfold State.startsDrag State.mouseMove at *
  split
  · split
    · next mouseDown hpending =>
      split
      · split
        · exact Or.inr rfl
        · exact Or.inl ⟨false, rfl, Bool.not_and_self _⟩
      · exact Or.inl ⟨s.dragListener, rfl, Bool.not_and_self _⟩
    · exact Or.inl ⟨s.dragListener, rfl, Bool.not_and_self _⟩
  · exact Or.inl ⟨s.dragListener, rfl, Bool.not_and_self _⟩

theorem Inv.mouseMove (h : Inv listeners s) (position : Point X) (bubbles : Bool) :
    Inv listeners ((s.mouseMove position bubbles).note
      (if s.startsDrag position bubbles then .dragStarted else .other)) := by
  obtain ⟨dragListener, hmove, hstarts⟩ | hmove := mouseMove_cases s position bubbles
  · rw [hmove, hstarts]
    exact (h.withDrag dragListener s.activeDrag).note (fun _ _ _ hdisturbs => hdisturbs.elim)
  · -- the press is forgotten when the drag starts
    rw [hmove]
    exact (h.forget.withDrag false true).note (fun press hpress => by cases hpress.1)

end Moves
variable {press : MouseDownEvent X} {s : State X}


theorem deliveries_eq_nil (up : MouseUpEvent)
    (h : listeners.count (Interactivity.kindOf press.button) = 0) :
    State.deliveries listeners press up = [] := by
  rw [State.deliveries, h]
  rfl

theorem mem_deliveries {up : MouseUpEvent} :
    d ∈ State.deliveries listeners press up ↔
      ∃ listener < listeners.count (Interactivity.kindOf press.button),
        ⟨Interactivity.kindOf press.button, listener, ⟨press, up⟩⟩ = d := by
  simp [State.deliveries]

/-- What was taken over has no listeners. -/
theorem Inv.bubbleUp (h : Inv listeners s) (button : MouseButton) :
    Inv listeners (s.bubbleUp listeners button) := by
  unfold State.bubbleUp
  split
  · next press hcaptured =>
    rw [deliveries_eq_nil _ (h.captured press hcaptured), List.append_nil]
    exact {
      toGood := ⟨h.paired, h.once⟩
      captured := fun press hpress => by cases hpress
      pending := h.pending
      unclicked := h.unclicked
      calm := h.calm }
  · exact h

/-- A press that was not disturbed makes a click. -/
theorem Inv.deliver (h : Inv listeners s)
    (hpress : s.Awaits listeners press) (hundragged : s.Undragged press)
    (dragListener activeDrag : Bool) :
    Inv listeners (State.note
      ⟨none, none, dragListener, activeDrag, s.history,
        s.delivered ++ State.deliveries listeners press ⟨press.button, s.now⟩⟩
      (.released press.button true)) := by
  have hpressed := h.pending press hpress.1
  have hlater : press.time < s.now := History.lt_length hpressed
  constructor
  · constructor
    · intro d hd
      obtain hold | hnew := List.mem_append.mp hd
      · exact (h.paired d hold).note _
      · obtain ⟨listener, _, rfl⟩ := mem_deliveries.mp hnew
        constructor
        · exact History.getElem?_concat hpressed _
        · exact List.getElem?_concat_length
        · exact hlater
        · rfl
        · exact (h.calm press hpress hundragged).between _
        · rfl
    · refine List.pairwise_append.mpr ⟨h.once, ?_, ?_⟩
      · rw [State.deliveries, List.pairwise_map]
        exact List.nodup_range.imp (fun hne _ => ⟨rfl, hne⟩)
      · intro d hd d' hd' hsame
        obtain ⟨listener, _, rfl⟩ := mem_deliveries.mp hd'
        exact absurd hsame (h.unclicked press hpress.1 d hd)
  · exact fun press hpress => by cases hpress
  · exact fun press hpress => by cases hpress
  · exact fun press hpress => by cases hpress
  · exact fun press hpress => by cases hpress.1

/-- A release that is not heard does no harm if no press awaits it, and one that is captured
    takes the press over, or forgets it. -/
theorem Inv.mouseUp (h : Inv listeners s) {button : MouseButton}
    {hovered captures bubbles : Bool} (hphases : bubbles = true → captures = true)
    (hheeds : Heeds listeners s (.mouseUp button hovered captures bubbles)) :
    Inv listeners ((s.mouseUp listeners button hovered captures bubbles).note
      (.released button hovered)) := by
  have hbubble : ∀ s' : State X, Inv listeners s' → s'.pendingMouseDown = none →
      Inv listeners (State.note
        { (if bubbles then s'.bubbleUp listeners button else s') with activeDrag := false }
        (.released button hovered)) := by
    intro s' h' hnone
    split
    · have hnone' : (s'.bubbleUp listeners button).pendingMouseDown = none := by
        unfold State.bubbleUp
        split <;> exact hnone
      refine ((h'.bubbleUp button).withDrag _ false).note ?_
      intro press hpress
      exact absurd hpress.1 (by rw [hnone']; simp)
    · refine (h'.withDrag _ false).note ?_
      intro press hpress
      exact absurd hpress.1 (by rw [hnone]; simp)
  unfold State.mouseUp
  cases captures with
  | false =>
    have hquiet : bubbles = false := by
      cases bubbles with
      | false => rfl
      | true => exact absurd (hphases rfl) (by simp)
    subst hquiet
    refine (h.withDrag s.dragListener false).note ?_
    intro press hpress hundragged
    have hcaptures := ((hheeds press ⟨hpress.1, hpress.2⟩).1 hundragged).1
    cases hcaptures
  | true =>
    dsimp only
    cases hpending : s.pendingMouseDown with
    | none =>
      have hcapture : s.captureUp hovered = s := by
        unfold State.captureUp
        rw [hpending]
      rw [hcapture]
      exact hbubble s h hpending
    | some press =>
      cases hovered with
      | false =>
        have hcapture : s.captureUp false = { s with pendingMouseDown := none } := by
          unfold State.captureUp
          rw [hpending]
          rfl
        rw [hcapture]
        exact hbubble _ h.forget rfl
      | true =>
        have hcapture : s.captureUp true =
            { s with pendingMouseDown := none, capturedMouseDown := some press } := by
          unfold State.captureUp
          rw [hpending]
          rfl
        rw [hcapture]
        by_cases hcount : 0 < listeners.count (Interactivity.kindOf press.button)
        · have hawaits : s.Awaits listeners press := ⟨hpending, hcount⟩
          obtain ⟨hheard, hdragged⟩ := hheeds press hawaits
          have hundragged : s.Undragged press := by
            by_contra hnot
            exact hdragged hnot ⟨rfl, rfl⟩
          obtain ⟨hbubbles, rfl⟩ := (hheard hundragged).2 rfl
          rw [if_pos hbubbles]
          exact h.deliver hawaits hundragged s.dragListener false
        · refine hbubble _ ?_ rfl
          exact {
            toGood := ⟨h.paired, h.once⟩
            captured := by
              intro press' hpress
              cases hpress
              exact Nat.eq_zero_of_not_pos hcount
            pending := h.forget.pending
            unclicked := h.forget.unclicked
            calm := h.forget.calm }

theorem Inv.redraw (h : Inv listeners s) : Inv listeners (s.redraw listeners) := by
  have hrelease : ∀ s' : State X, Inv listeners s' → Inv listeners
      { s' with capturedMouseDown := none, dragListener := listeners.dragListener } :=
    fun s' h' =>
      { toGood := ⟨h'.paired, h'.once⟩
        captured := fun press hpress => by cases hpress
        pending := h'.pending
        unclicked := h'.unclicked
        calm := h'.calm }
  unfold State.redraw
  by_cases hdrag : s.activeDrag = true
  · rw [if_pos hdrag]
    exact hrelease _ h.forget
  · rw [if_neg hdrag]
    exact hrelease s h

section Runs

variable [Field X] [LinearOrder X]

variable {s : State X} {t : Nat} {event : Event} {press : MouseDownEvent X}

theorem inv_step {s' : State X} {a : Action X} (h : Inv listeners s)
    (hheeds : Heeds listeners s a) (hstep : s.step listeners a = some (.ok s')) :
    Inv listeners s' := by
  cases a with
  | mouseDown button position hovered bubbles =>
    cases hstep
    exact h.mouseDown button position hovered bubbles
  | mouseMove position bubbles =>
    cases hstep
    exact h.mouseMove position bubbles
  | mouseUp button hovered captures bubbles =>
    obtain ⟨hphases, rfl⟩ := Machine.guarded_ok_iff.mp hstep
    exact h.mouseUp hphases hheeds
  | startDrag =>
    cases hstep
    exact (h.withDrag s.dragListener true).note (fun _ _ _ _ => rfl)
  | stopDrag =>
    cases hstep
    exact (h.withDrag s.dragListener false).note (fun _ _ _ hdisturbs => hdisturbs.elim)
  | redraw =>
    cases hstep
    refine Inv.note ?_ (fun _ _ _ hdisturbs => hdisturbs.elim)
    exact h.redraw

theorem inv_inductive (X : Type) [Field X] [LinearOrder X] (listeners : Interactivity) :
    (machine X listeners).Inductive (Heeds listeners) (Inv listeners) where
  start := inv_new
  step := fun _ _ _ h hheeds hstep => inv_step h hheeds hstep

/-! ### Section 5: Steps that spoil a run -/

omit [Field X] [LinearOrder X] in
/-- Something happened between the press and the release of a click. -/
theorem not_good_of_disturbed (hd : d ∈ s.delivered) (hevent : s.history[t]? = some event)
    (hdisturbs : event.Disturbs) (hlt : d.event.down.time < t) (hgt : t < d.event.up.time) :
    ¬ Good s :=
  fun h => (h.paired d hd).undisturbed.not_at hevent hlt hgt hdisturbs

/-- The next release over the element makes a click of the press. -/
def State.Holds (s : State X) (press : MouseDownEvent X) : Prop :=
  s.pendingMouseDown = some press ∨
    s.pendingMouseDown = none ∧ s.capturedMouseDown = some press

section

omit [Field X] [LinearOrder X]

theorem State.Holds.mem_delivered (h : s.Holds press)
    (hcount : 0 < listeners.count (Interactivity.kindOf press.button)) (button : MouseButton) :
    ⟨Interactivity.kindOf press.button, 0, ⟨press, ⟨button, s.now⟩⟩⟩ ∈
      (s.mouseUp listeners button true true true).delivered := by
  have hmem : ⟨Interactivity.kindOf press.button, 0, ⟨press, ⟨button, s.now⟩⟩⟩ ∈
      State.deliveries listeners press ⟨button, s.now⟩ :=
    mem_deliveries.mpr ⟨0, hcount, rfl⟩
  have hcaptured : (s.captureUp true).capturedMouseDown = some press ∧
      (s.captureUp true).now = s.now := by
    unfold State.captureUp
    obtain hpending | ⟨hnone, hcaptured⟩ := h
    · rw [hpending]
      exact ⟨rfl, rfl⟩
    · rw [hnone]
      exact ⟨hcaptured, rfl⟩
  show _ ∈ ((s.captureUp true).bubbleUp listeners button).delivered
  unfold State.bubbleUp
  rw [hcaptured.1]
  refine List.mem_append_right _ ?_
  rw [hcaptured.2]
  exact hmem

theorem mouseUp_history (s : State X) (button : MouseButton) :
    (s.mouseUp listeners button true true true).history = s.history := by
  show ((s.captureUp true).bubbleUp listeners button).history = s.history
  unfold State.bubbleUp State.captureUp
  split <;> split <;> rfl

end

/-- A press that is kept over a release or a drag makes a bad click. -/
theorem State.Holds.spoils (h : s.Holds press)
    (hcount : 0 < listeners.count (Interactivity.kindOf press.button))
    (hheeds : Heeds listeners s (.mouseUp press.button true true true))
    (hevent : s.history[t]? = some event) (hdisturbs : event.Disturbs) (hlt : press.time < t) :
    ∃ actions s'', (machine X listeners).Meets (Heeds listeners) s actions ∧
      (machine X listeners).run s actions = some (.ok s'') ∧ ¬ Good s'' := by
  refine ⟨[.mouseUp press.button true true true],
    (s.mouseUp listeners press.button true true true).note (.released press.button true), ?_, rfl,
    ?_⟩
  · exact ⟨hheeds, fun _ _ => trivial⟩
  · have hkept : ((s.mouseUp listeners press.button true true true).note
        (.released press.button true)).history[t]? = some event := by
      show ((s.mouseUp listeners press.button true true true).history ++ _)[t]? = some event
      rw [mouseUp_history]
      exact History.getElem?_concat hevent _
    exact not_good_of_disturbed (h.mem_delivered hcount press.button) hkept hdisturbs hlt
      (History.lt_length hevent)

/-- So does a press that is taken over and not delivered. -/
theorem taken_spoils {button : MouseButton} (h : s.Awaits listeners press)
    (hevent : (s.history ++ [Event.released button true])[t]? = some event)
    (hdisturbs : event.Disturbs) (hlt : press.time < t) :
    ∃ actions s'', (machine X listeners).Meets (Heeds listeners)
        ((s.mouseUp listeners button true true false).note (.released button true)) actions ∧
      (machine X listeners).run
        ((s.mouseUp listeners button true true false).note (.released button true)) actions =
          some (.ok s'') ∧ ¬ Good s'' := by
  have hmouseUp : s.mouseUp listeners button true true false =
      { s with
        pendingMouseDown := none
        capturedMouseDown := some press
        activeDrag := false } := by
    unfold State.mouseUp State.captureUp
    rw [h.1]
    rfl
  rw [hmouseUp]
  refine State.Holds.spoils (Or.inr ⟨rfl, rfl⟩) h.2 ?_ hevent hdisturbs hlt
  -- no press awaits the release
  intro press' hpress
  cases hpress.1

theorem inv_spoils {s' : State X} {a : Action X} (h : Inv listeners s)
    (hstep : s.step listeners a = some (.ok s')) (hnot : ¬ Heeds listeners s a) :
    ∃ actions s'', (machine X listeners).Meets (Heeds listeners) s' actions ∧
      (machine X listeners).run s' actions = some (.ok s'') ∧ ¬ Good s'' := by
  cases a with
  | mouseUp button hovered captures bubbles =>
    obtain ⟨hphases, rfl⟩ := Machine.guarded_ok_iff.mp hstep
    obtain ⟨press, hnot⟩ := not_forall.mp hnot
    obtain ⟨hpress, hnot⟩ := Classical.not_imp.mp hnot
    have hholds : s.Holds press := Or.inl hpress.1
    have hlater : press.time < s.history.length := History.lt_length (h.pending press hpress.1)
    have hreleased : ∀ history : List Event, history = s.history →
        (history ++ [Event.released button hovered])[s.history.length]? =
          some (.released button hovered) := by
      intro history heq
      rw [heq]
      exact List.getElem?_concat_length
    by_cases hundragged : s.Undragged press
    · have hmiss : ¬ (captures = true ∧
          (hovered = true → bubbles = true ∧ button = press.button)) := by
        intro hheard
        exact hnot ⟨fun _ => hheard, fun hdragged => absurd hundragged hdragged⟩
      cases captures with
      | false =>
        cases bubbles with
        | true => exact absurd (hphases rfl) (by simp)
        | false =>
          -- the press is kept
          have hkept : State.Holds ((s.mouseUp listeners button hovered false false).note
              (.released button hovered)) press := Or.inl hpress.1
          refine hkept.spoils hpress.2 ?_ (hreleased _ rfl) trivial hlater
          intro press' hpress'
          have hsame := hpress'.1.symm.trans hpress.1
          cases hsame
          have hstill : State.Undragged ((s.mouseUp listeners button hovered false false).note
              (.released button hovered)) press :=
            History.NoneAfter.concat hundragged (by simp)
          exact ⟨fun _ => ⟨rfl, fun _ => ⟨rfl, rfl⟩⟩,
            fun hdragged => absurd hstill hdragged⟩
      | true =>
        obtain rfl : hovered = true := by
          by_contra hout
          exact hmiss ⟨rfl, fun hhovered => absurd hhovered hout⟩
        cases bubbles with
        | false => exact taken_spoils hpress (hreleased _ rfl) trivial hlater
        | true =>
          -- the button is not that of the press
          refine ⟨[], _, trivial, rfl, ?_⟩
          intro hgood
          have hsame := (hgood.paired _ (hholds.mem_delivered hpress.2 button)).sameButton
          exact hmiss ⟨rfl, fun _ => ⟨rfl, hsame⟩⟩
    · -- there was a drag
      obtain ⟨rfl, rfl⟩ : hovered = true ∧ captures = true := by
        by_contra hout
        exact hnot ⟨fun h => absurd h hundragged, fun _ => hout⟩
      obtain ⟨r, event, hlt, hevent, rfl⟩ := History.exists_of_not_noneAfter hundragged
      cases bubbles with
      | false => exact taken_spoils hpress (History.getElem?_concat hevent _) trivial hlt
      | true =>
        refine ⟨[], _, trivial, rfl, ?_⟩
        have hkept : ((s.mouseUp listeners button true true true).note
            (.released button true)).history[r]? = some .dragStarted := by
          show ((s.mouseUp listeners button true true true).history ++ _)[r]? = _
          rw [mouseUp_history]
          exact History.getElem?_concat hevent _
        exact not_good_of_disturbed (hholds.mem_delivered hpress.2 button) hkept trivial hlt
          (History.lt_length hevent)
  | _ => exact absurd trivial hnot

/-! ### Section 6: The result -/

/-- **Clicks pair a press with the next release** in the runs in which no release and no drag
    passes by a press that is remembered; and in these runs only. -/
theorem clicks_pair (X : Type) [Field X] [LinearOrder X] (listeners : Interactivity) :
    (machine X listeners).Exact (Heeds listeners) Good := by
  apply (inv_inductive X listeners).exact
  · intro s h
    exact h.toGood
  · intro s a s' h hstep hnot
    exact inv_spoils h hstep hnot

end Runs

/-- An element with a listener for clicks. -/
def button : Interactivity := ⟨1, 0, false⟩

/-- The left button is pressed over the element.  While it is held, the right one is pressed and
    released. -/
def heldClick : List (Action ℚ) :=
  [.mouseDown .left ⟨0, 0⟩ true true, .mouseDown .right ⟨0, 0⟩ true true,
    .mouseUp .right true true true]

/-- The release of the right button makes a click of the press of the left one. -/
theorem heldClick_clicks :
    ∃ s, (machine ℚ button).run (State.new button) heldClick = some (.ok s) ∧ ¬ Good s := by
  refine ⟨_, rfl, ?_⟩
  intro h
  have hsame := (h.paired _ List.mem_cons_self).sameButton
  cases hsame

end Clicks

end Gpui
