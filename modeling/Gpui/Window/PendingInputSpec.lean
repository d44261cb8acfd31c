import Gpui.Window.PendingInput
import Gpui.Keymap.Chords

/-! # Pending key input: consistent with the focus

    The window records pending keystrokes with the focus that they were typed in, and a
    change of the focus drops them.  But a key event is matched on the path of the focus
    that was set when the event began, while interceptors and replayed actions run before
    the keystrokes are matched and before they are recorded. -/

open Exec

namespace Gpui

open List

variable {A F : Type} [Gpui.Action A]

/-! ### Section 1: Paths and chords -/

namespace FocusTree

variable (tree : FocusTree F)

theorem lt_of_mem_ancestors {bound target : Nat} (htarget : target < tree.nodes.length) :
    ∀ id ∈ tree.ancestors bound target, id < tree.nodes.length := by
  induction bound generalizing target with
  | zero =>
    intro id hmem
    cases hmem
  | succ bound ih =>
    intro id hmem
    rcases mem_cons.mp hmem with heq | hmem
    · rw [heq]
      exact htarget
    · split at hmem
      · next parent hparent =>
        -- a parent comes before its children
        have hlt := tree.parent_lt target parent hparent
        exact ih (Nat.lt_trans hlt htarget) id hmem
      · cases hmem

theorem focusNodeId_lt (focus : Option F) : tree.focusNodeId focus < tree.nodes.length := by
  have hroot : 0 < tree.nodes.length := length_pos_iff.mpr tree.nodes_ne_nil
  unfold focusNodeId
  cases hid : focus.bind tree.focusableNodeIds with
  | none => exact hroot
  | some id =>
    obtain ⟨f, _, hid⟩ := Option.bind_eq_some_iff.mp hid
    exact tree.focusable_lt f id hid

theorem onTree_pathOf (keymap : Keymap A) (focus : Option F) :
    (tree.dispatchTree keymap).OnTree (tree.pathOf focus) := by
  intro id hmem
  exact tree.lt_of_mem_ancestors (tree.focusNodeId_lt focus) id (mem_reverse.mp hmem)

@[simp] theorem pathOf_none : tree.pathOf (none : Option F) = [0] := by
  show (tree.ancestors 1 0).reverse = [0]
  unfold ancestors
  split <;> rfl

/-- The contexts on the dispatch path of a focus. -/
def contextsOf (focus : Option F) : List KeyContext :=
  (tree.pathOf focus).filterMap (fun id => (tree.nodes[id]?).bind DispatchNode.context)

variable [Target]

/-- The keystrokes are a proper prefix of a binding that is enabled on the path. -/
def Awaits (keymap : Keymap A) (focus : Option F) (keystrokes : List Keystroke) : Prop :=
  ∃ r, keymap.Extends keystrokes (tree.contextsOf focus) r

end FocusTree

variable [Target]

namespace Keymap

/-- The pending flag is set for a binding that extends the input. -/
theorem exists_extends {keymap : Keymap A} {input : List Keystroke} {contextStack : List KeyContext}
    (hpending : (keymap.bindingsForInput input contextStack).2 = true) :
    ∃ r, keymap.Extends input contextStack r := by
  obtain ⟨keystrokes, hmem⟩ := of_decide_eq_true hpending
  cases hentries : pendingBindings input contextStack keymap.reversed with
  | nil =>
    rw [hentries] at hmem
    exact absurd hmem (Finset.notMem_empty _)
  | cons entry entries =>
    have hentry : (entry.1, entry.2) ∈ pendingBindings input contextStack keymap.reversed := by
      rw [hentries]
      exact mem_cons_self ..
    obtain ⟨depth, h⟩ := mem_pendingBindings.mp hentry
    exact ⟨_, h⟩

end Keymap

namespace DispatchTree

variable {tree : DispatchTree A} {keystroke : Keystroke} {dispatchPath : List Nat}

variable {input : List Keystroke}

/-- What `dispatch_key` leaves pending is extended by a binding in its contexts. -/
theorem dispatchKeyBounded_pending {bound : Nat} {result : DispatchResult A}
    (hrun : tree.dispatchKeyBounded keystroke dispatchPath bound input = .ok result)
    (hne : result.pending ≠ []) :
    ∃ r, tree.keymap.Extends result.pending result.contextStack r := by
  induction bound generalizing input result with
  | zero => cases hrun
  | succ bound ih =>
    obtain ⟨⟨bindings, pending, contextStack⟩, hinput, hrun⟩ := bind_eq_ok.mp hrun
    obtain ⟨contexts, _, hinput⟩ := bind_eq_ok.mp hinput
    cases hinput
    dsimp only at hrun
    split at hrun
    · next hpending =>
      cases hrun
      exact Keymap.exists_extends hpending
    · split at hrun
      · cases hrun
        exact absurd rfl hne
      · split at hrun
        · cases hrun
          exact absurd rfl hne
        · -- a prefix is replayed, and the keystroke is dispatched after the rest
          obtain ⟨⟨suffix, toReplay⟩, _, hrun⟩ := bind_eq_ok.mp hrun
          obtain ⟨rest, hrest, hrun⟩ := bind_eq_ok.mp hrun
          cases hrun
          have hrest := ih hrest hne
          exact hrest

theorem dispatchKey_pending {result : DispatchResult A}
    (hrun : tree.dispatchKey input keystroke dispatchPath = .ok result)
    (hne : result.pending ≠ []) :
    ∃ r, tree.keymap.Extends result.pending result.contextStack r :=
  dispatchKeyBounded_pending hrun hne

theorem flushDispatch_ok (hpath : tree.OnTree dispatchPath)
    (hne : input ≠ []) : ∃ replays, tree.flushDispatch input dispatchPath = .ok replays := by
  obtain ⟨replays, _, hrun, _⟩ :=
    flushDispatchBounded_spec hpath input.length hne (Nat.le_refl _)
  exact ⟨replays, hrun⟩

end DispatchTree

/-! ### Section 2: The property and the condition -/

namespace KeyWindow

/-- The pending keystrokes begin a binding on the path of the focus recorded with them,
    and are not empty when they are flushed.  The focus that a chord is recorded with is
    one whose path the chord is begun on, and it is gone on with on the path of the
    recorded focus. -/
structure Consistent (keymap : Keymap A) [DecidableEq F] (s : KeyWindow A F) : Prop where
  pending : ∀ p, s.pendingInput = some p →
    p.keystrokes ≠ [] ∧ s.tree.Awaits keymap p.focus p.keystrokes
  flush : ∀ generation e, s.expire keymap generation ≠ .error e
  begun : ∀ event path p result stack, s.stack = .matched event path p result :: stack →
    result.pending ≠ [] → path = s.tree.pathOf s.focus
  completed : ∀ event keystroke path stack,
    s.stack = .matching event keystroke path :: stack → s.takenInput.keystrokes ≠ [] →
      path = s.tree.pathOf s.takenInput.focus

/-- The interceptors let an event go on with pending keystrokes only if its path is still
    that of the focus; so is it when a replay ends after which keystrokes are pending.
    When they are stored, and in every frame that is drawn before the next event, the
    contexts of the recorded focus are the ones that they were matched in, or some
    binding goes on with them there too; and the input handler does not set the focus
    where none was. -/
def Keeps (keymap : Keymap A) [DecidableEq F] (s : KeyWindow A F) :
    KeyWindow.Action F → Prop
  | .draw tree => ∀ p, s.pendingInput = some p →
      tree.contextsOf p.focus = s.tree.contextsOf p.focus ∨
        tree.Awaits keymap p.focus p.keystrokes
  | .returns flag =>
      (∀ event keystroke path stack, s.stack = .intercepting event keystroke path :: stack →
        flag = true → s.takenInput.keystrokes ≠ [] → path = s.tree.pathOf s.focus) ∧
      ∀ event p result stack, s.stack = .accepting event p result :: stack →
        (p.focus = none → s.focus = none) ∧
          (s.tree.contextsOf p.focus = result.contextStack ∨
            s.tree.Awaits keymap p.focus p.keystrokes)
  | .next => ∀ event path p result stack,
      s.stack = .replaying [] :: .matched event path p result :: stack →
        result.pending ≠ [] → path = s.tree.pathOf s.focus
  | _ => True

end KeyWindow

/-! ### Section 3: The invariant -/

namespace KeyCall

/-- What a running call knows of the keystrokes that it may leave pending. -/
def Known (keymap : Keymap A) : KeyCall A F → Prop
  | .matched _ _ _ result => result.pending ≠ [] →
      ∃ r, keymap.Extends result.pending result.contextStack r
  | .accepting _ p result => p.keystrokes ≠ [] ∧
      ∃ r, keymap.Extends p.keystrokes result.contextStack r
  | _ => True

omit [Gpui.Action A] [Target]

/-- The window goes on with an event at once, and no code runs. -/
def waits : KeyCall A F → Bool
  | .matching _ _ _  => true
  | .matched _ _ _ _ => true
  | _                => false

def replays : KeyCall A F → Bool
  | .replaying _ => true
  | _            => false

/-- What a call may stand above: an event that was matched waits for its replay only. -/
def Above (above : KeyCall A F) : KeyCall A F → Prop
  | .matching _ _ _  => False
  | .matched _ _ _ _ => above.replays = true
  | _                => True

theorem Above.of_calm {above below : KeyCall A F} (h : below.waits = false) :
    above.Above below := by
  cases below with
  | matching => cases h
  | matched => cases h
  | _ => trivial

theorem Above.calm {above below : KeyCall A F} (h : above.Above below)
    (hreplays : above.replays = false) : below.waits = false := by
  cases below with
  | matching => exact h.elim
  | matched => exact Bool.noConfusion (hreplays.symm.trans h)
  | _ => rfl

end KeyCall

namespace KeyWindow

variable {keymap : Keymap A} {s s' : KeyWindow A F}

/-- No event waits on top of the stack. -/
def Calm (stack : List (KeyCall A F)) : Prop := ∀ call ∈ stack.head?, call.waits = false

omit [Gpui.Action A] [Target] in
theorem calm_of_mayStart (h : s.mayStart = true) : Calm s.stack := by
  unfold mayStart runsCode at h
  intro call hcall
  cases hstack : s.stack with
  | nil =>
    rw [hstack] at hcall
    cases hcall
  | cons top stack =>
    rw [hstack] at h hcall
    rw [← show top = call from Option.some.inj hcall]
    cases top with
    | matching => cases h
    | matched => cases h
    | _ => rfl

variable [DecidableEq F]

structure Inv (keymap : Keymap A) (s : KeyWindow A F) : Prop where
  pending : ∀ p, s.pendingInput = some p → p.keystrokes ≠ [] ∧
    s.tree.Awaits keymap p.focus p.keystrokes ∧ (p.focus = none → s.focus = none)
  calls : ∀ call ∈ s.stack, call.Known keymap
  nested : s.stack.IsChain KeyCall.Above
  begun : ∀ event path p result stack, s.stack = .matched event path p result :: stack →
    result.pending ≠ [] → path = s.tree.pathOf s.focus
  completed : ∀ event keystroke path stack,
    s.stack = .matching event keystroke path :: stack → s.takenInput.keystrokes ≠ [] →
      path = s.tree.pathOf s.focus

/-- Keystrokes that are taken up were recorded with the present focus. -/
theorem Inv.takenInput_focus (h : s.Inv keymap) (hne : s.takenInput.keystrokes ≠ []) :
    s.takenInput.focus = s.focus := by
  unfold takenInput at hne ⊢
  cases hpending : s.pendingInput with
  | none =>
    rw [hpending] at hne
    exact absurd rfl hne
  | some p =>
    rw [hpending] at hne
    simp only [Option.getD_some] at hne ⊢
    split at hne
    · exact absurd rfl hne
    · next hsame =>
      rw [if_neg hsame]
      cases hfocus : p.focus with
      | none => exact ((h.pending p hpending).2.2 hfocus).symm
      | some f =>
        simp only [hfocus, Option.isSome_some, Bool.true_and, bne_iff_ne, ne_eq,
          Decidable.not_not] at hsame
        exact hsame

theorem Inv.consistent (h : s.Inv keymap) : s.Consistent keymap where
  pending := fun p hp => ⟨(h.pending p hp).1, (h.pending p hp).2.1⟩
  flush := by
    intro generation e herror
    unfold expire at herror
    split at herror
    · cases herror
    · next p hp =>
      split at herror
      · cases herror
      · split at herror
        · cases herror
        · -- the keystrokes that are flushed are not empty
          obtain ⟨replays, hrun⟩ := DispatchTree.flushDispatch_ok
            (s.tree.onTree_pathOf keymap s.focus) (h.pending p hp).1
          rw [hrun] at herror
          cases herror
  begun := h.begun
  completed := by
    intro event keystroke path stack hstack hne
    rw [h.takenInput_focus hne]
    exact h.completed event keystroke path stack hstack hne

/-- A state in which no event waits. -/
theorem Inv.of_calm
    (hpending : ∀ p, s.pendingInput = some p → p.keystrokes ≠ [] ∧
      s.tree.Awaits keymap p.focus p.keystrokes ∧ (p.focus = none → s.focus = none))
    (hcalls : ∀ call ∈ s.stack, call.Known keymap) (hnested : s.stack.IsChain KeyCall.Above)
    (hcalm : Calm s.stack) : s.Inv keymap where
  pending := hpending
  calls := hcalls
  nested := hnested
  begun := by
    intro event path p result stack hstack
    rw [hstack] at hcalm
    exact absurd (hcalm _ rfl) Bool.noConfusion
  completed := by
    intro event keystroke path stack hstack
    rw [hstack] at hcalm
    exact absurd (hcalm _ rfl) Bool.noConfusion

/-! ### Section 4: Steps -/

/-- A change under which the stack stays as it is, while code runs or nothing does. -/
theorem Inv.kept (h : s.Inv keymap) (hcalm : Calm s.stack) (hstack : s'.stack = s.stack)
    (hfocus : s.focus = none → s'.focus = none)
    (hpending : ∀ p, s'.pendingInput = some p → s.pendingInput = some p ∧
      (s'.tree.contextsOf p.focus = s.tree.contextsOf p.focus ∨
        s'.tree.Awaits keymap p.focus p.keystrokes)) : s'.Inv keymap := by
  apply Inv.of_calm
  · intro p hp
    obtain ⟨hp, hcontexts⟩ := hpending p hp
    obtain ⟨hne, hawaits, hnone⟩ := h.pending p hp
    refine ⟨hne, ?_, fun hf => hfocus (hnone hf)⟩
    rcases hcontexts with heq | hawaits'
    · unfold FocusTree.Awaits at hawaits ⊢
      rw [heq]
      exact hawaits
    · exact hawaits'
  · rw [hstack]
    exact h.calls
  · rw [hstack]
    exact h.nested
  · rw [hstack]
    exact hcalm

/-- A call that does not wait begins. -/
theorem Inv.push (h : s.Inv keymap) (hcalm : Calm s.stack) (call : KeyCall A F)
    (hknown : call.Known keymap) (hcall : call.waits = false) :
    Inv keymap { s with stack := call :: s.stack } := by
  apply Inv.of_calm
  · exact h.pending
  · intro other hmem
    rcases mem_cons.mp hmem with heq | hmem
    · rw [heq]
      exact hknown
    · exact h.calls other hmem
  · exact h.nested.cons (fun below hbelow => .of_calm (hcalm below hbelow))
  · intro other hother
    cases Option.some.inj hother
    exact hcall

variable {event : KeyEvent} {path : List Nat}

/-- The event of the innermost call is about to be matched. -/
theorem Inv.push_matching (h : s.Inv keymap) (hcalm : Calm s.stack) {keystroke : Keystroke}
    (hpath : s.takenInput.keystrokes ≠ [] → path = s.tree.pathOf s.focus) :
    Inv keymap { s with stack := .matching event keystroke path :: s.stack } where
  pending := h.pending
  calls := by
    intro other hmem
    rcases mem_cons.mp hmem with heq | hmem
    · rw [heq]
      trivial
    · exact h.calls other hmem
  nested := h.nested.cons (fun below hbelow => .of_calm (hcalm below hbelow))
  begun := by
    intro _ _ _ _ _ hstack
    cases hstack
  completed := by
    intro _ _ _ _ hstack
    cases hstack
    exact hpath

/-- A call that is not a replay is left, and no event waits under it. -/
theorem Inv.pop (h : s.Inv keymap) {call : KeyCall A F} {stack : List (KeyCall A F)}
    (hstack : s.stack = call :: stack) (hcall : call.replays = false) :
    Inv keymap { s with stack := stack } ∧ Calm stack := by
  have hnested := h.nested
  rw [hstack, isChain_cons] at hnested
  have hcalm : Calm stack := fun below hbelow => (hnested.1 below hbelow).calm hcall
  refine ⟨Inv.of_calm h.pending ?_ hnested.2 hcalm, hcalm⟩
  intro other hmem
  apply h.calls other
  rw [hstack]
  exact mem_cons_of_mem _ hmem

theorem inv_start (tree : FocusTree F) : Inv keymap (start tree : KeyWindow A F) := by
  apply Inv.of_calm
  · intro p hp
    cases hp
  · intro call hmem
    cases hmem
  · exact .nil
  · intro call hcall
    cases hcall

section

variable (h : s.Inv keymap)
include h

theorem Inv.setFocus (hcalm : Calm s.stack) (focus : F) : (s.setFocus focus).Inv keymap := by
  unfold KeyWindow.setFocus
  split
  · exact h
  · -- another focus drops the keystrokes
    apply Inv.of_calm
    · intro p hp
      cases hp
    · exact h.calls
    · exact h.nested
    · exact hcalm

theorem Inv.blur (hcalm : Calm s.stack) : s.blur.Inv keymap := by
  unfold KeyWindow.blur
  split
  · exact h.kept hcalm rfl (fun _ => rfl) (fun p hp => ⟨hp, Or.inl rfl⟩)
  · exact h

theorem Inv.disableFocus (hcalm : Calm s.stack) : s.disableFocus.Inv keymap := by
  have hblur := h.blur hcalm
  have hstack : s.blur.stack = s.stack := by
    unfold KeyWindow.blur
    split <;> rfl
  apply hblur.kept
  · rw [hstack]
    exact hcalm
  · rfl
  · exact id
  · exact fun p hp => ⟨hp, Or.inl rfl⟩

theorem Inv.keyEvent (hcalm : Calm s.stack) (event : KeyEvent) : (s.keyEvent event).Inv keymap := by
  cases event with
  | keyDown keystroke => exact h.push hcalm _ trivial rfl
  | modifier keystroke => exact h.push_matching hcalm (fun _ => rfl)
  | other => exact h.push hcalm _ trivial rfl

/-- Keystrokes that are taken up are pending no longer. -/
theorem Inv.take (hcalm : Calm s.stack) : Inv keymap { s with pendingInput := none } := by
  refine h.kept hcalm rfl ?_ ?_
  · exact id
  · intro p hp
    cases hp

variable {stack : List (KeyCall A F)} {p : PendingInput F} {result : DispatchResult A}

theorem Inv.matchKey {keystroke : Keystroke}
    (hstack : s.stack = .matching event keystroke path :: stack)
    (hrun : s.matchKey keymap event keystroke path stack = .ok s') : s'.Inv keymap := by
  obtain ⟨result, hresult, hrun⟩ := bind_eq_ok.mp hrun
  cases hrun
  obtain ⟨h, hcalm⟩ := h.pop hstack rfl
  apply Inv.of_calm
  · intro p hp
    cases hp
  · intro call hmem
    rcases mem_cons.mp hmem with heq | hmem
    · rw [heq]
      trivial
    · rcases mem_cons.mp hmem with heq | hmem
      · rw [heq]
        exact DispatchTree.dispatchKey_pending hresult
      · exact h.calls call hmem
  · refine .cons_cons rfl ?_
    exact h.nested.cons (fun below hbelow => .of_calm (hcalm below hbelow))
  · intro call hcall
    cases Option.some.inj hcall
    rfl

theorem Inv.matched (hstack : s.stack = .matched event path p result :: stack) :
    (s.matched event p result stack).Inv keymap := by
  have hknown := h.calls (.matched event path p result) (by rw [hstack]; simp)
  obtain ⟨h, hcalm⟩ := h.pop hstack rfl
  unfold KeyWindow.matched
  split
  · next hne =>
    have hne : result.pending ≠ [] := by simpa using hne
    exact h.push hcalm _ ⟨hne, hknown hne⟩ rfl
  · exact h.push hcalm _ trivial rfl

/-- The keystrokes are stored with contexts in which they go on. -/
theorem Inv.store (hstack : s.stack = .accepting event p result :: stack)
    (hfocus : p.focus = none → s.focus = none)
    (hcontexts : s.tree.contextsOf p.focus = result.contextStack ∨ s.tree.Awaits keymap p.focus p.keystrokes)
    (hasBinding accepts : Bool) : (s.store p hasBinding accepts stack).Inv keymap := by
  obtain ⟨hne, hextends⟩ := h.calls (.accepting event p result) (by rw [hstack]; simp)
  obtain ⟨h, hcalm⟩ := h.pop hstack rfl
  have hawaits : s.tree.Awaits keymap p.focus p.keystrokes := by
    rcases hcontexts with heq | hawaits
    · unfold FocusTree.Awaits
      rw [heq]
      exact hextends
    · exact hawaits
  have hhandler := h.push hcalm .handler trivial rfl
  have hcalm' : Calm (KeyCall.handler :: stack : List (KeyCall A F)) := by
    intro call hcall
    cases Option.some.inj hcall
    rfl
  unfold KeyWindow.store
  dsimp only
  split
  all_goals
    apply Inv.of_calm
    · intro q hq
      cases Option.some.inj hq
      exact ⟨hne, hawaits, hfocus⟩
    · exact hhandler.calls
    · exact hhandler.nested
    · exact hcalm'

theorem Inv.expire (hcalm : Calm s.stack) {generation : Nat}
    (hrun : s.expire keymap generation = .ok s') : s'.Inv keymap := by
  unfold KeyWindow.expire at hrun
  split at hrun
  · cases hrun
    exact h
  · split at hrun
    · cases hrun
      exact h
    · split at hrun
      · cases hrun
        exact h.take hcalm
      · obtain ⟨toReplay, _, hrun⟩ := bind_eq_ok.mp hrun
        cases hrun
        -- the replay stands above what runs, and the observers run first
        have hreplaying := (h.take hcalm).push hcalm (.replaying toReplay) trivial rfl
        apply hreplaying.push _ .handler trivial rfl
        intro call hcall
        cases Option.some.inj hcall
        rfl

theorem Inv.returns {flag : Bool} (hkeeps : s.Keeps keymap (.returns flag))
    (hstep : s.step keymap (.returns flag) = some (.ok s')) : s'.Inv keymap := by
  obtain ⟨hintercepted, hstored⟩ := hkeeps
  simp only [step] at hstep
  split at hstep
  · next event keystroke path stack hstack =>
    obtain ⟨hpop, hcalm⟩ := h.pop hstack rfl
    split at hstep
    · next hflag =>
      cases hstep
      exact hpop.push_matching hcalm (hintercepted event keystroke path stack hstack hflag)
    · cases hstep
      exact hpop.push hcalm _ trivial rfl
  · next event p result stack hstack =>
    cases hstep
    obtain ⟨hfocus, hcontexts⟩ := hstored event p result stack hstack
    exact h.store hstack hfocus hcontexts _ _
  · next stack hstack =>
    cases hstep
    exact (h.pop hstack rfl).1
  · cases hstep

theorem Inv.next (hkeeps : s.Keeps keymap .next) (hstep : s.step keymap .next = some (.ok s')) :
    s'.Inv keymap := by
  simp only [step] at hstep
  split at hstep
  · next event keystroke path stack hstack =>
    exact h.matchKey hstack (Option.some.inj hstep)
  · next stack hstack =>
    cases hstep
    -- the replay ends, and its event may go on
    have hnested := h.nested
    rw [hstack, isChain_cons] at hnested
    refine ⟨h.pending, ?_, hnested.2, ?_, ?_⟩
    · intro call hmem
      apply h.calls call
      rw [hstack]
      exact mem_cons_of_mem _ hmem
    · intro event path p result rest hrest
      dsimp only at hrest
      rw [hrest] at hstack
      exact hkeeps event path p result rest hstack
    · intro event keystroke path rest hrest
      dsimp only at hrest
      rw [hrest] at hnested
      exact (hnested.1 _ rfl).elim
  · next replay replays stack hstack =>
    cases hstep
    have hnested := h.nested
    rw [hstack, isChain_cons] at hnested
    apply Inv.of_calm
    · exact h.pending
    · intro call hmem
      rcases mem_cons.mp hmem with heq | hmem
      · rw [heq]
        trivial
      · rcases mem_cons.mp hmem with heq | hmem
        · rw [heq]
          trivial
        · apply h.calls call
          rw [hstack]
          exact mem_cons_of_mem _ hmem
    · refine .cons_cons trivial (hnested.2.cons ?_)
      exact hnested.1
    · intro call hcall
      cases Option.some.inj hcall
      rfl
  · next event path p result stack hstack =>
    cases hstep
    exact h.matched hstack
  · cases hstep

theorem inv_step {a : KeyWindow.Action F} (hkeeps : s.Keeps keymap a)
    (hstep : s.step keymap a = some (.ok s')) : s'.Inv keymap := by
  cases a with
  | keyEvent event =>
    obtain ⟨hstart, heq⟩ := Option.ite_none_right_eq_some.mp hstep
    cases heq
    exact h.keyEvent (calm_of_mayStart hstart) event
  | draw tree =>
    obtain ⟨hstart, heq⟩ := Option.ite_none_right_eq_some.mp hstep
    cases heq
    exact h.kept (calm_of_mayStart hstart) rfl id (fun p hp => ⟨hp, hkeeps p hp⟩)
  | focus focus =>
    obtain ⟨hstart, heq⟩ := Option.ite_none_right_eq_some.mp hstep
    cases heq
    exact h.setFocus (calm_of_mayStart hstart) focus
  | blur =>
    obtain ⟨hstart, heq⟩ := Option.ite_none_right_eq_some.mp hstep
    cases heq
    exact h.blur (calm_of_mayStart hstart)
  | disableFocus =>
    obtain ⟨hstart, heq⟩ := Option.ite_none_right_eq_some.mp hstep
    cases heq
    exact h.disableFocus (calm_of_mayStart hstart)
  | clearPendingKeystrokes =>
    obtain ⟨hstart, heq⟩ := Option.ite_none_right_eq_some.mp hstep
    cases heq
    exact h.take (calm_of_mayStart hstart)
  | expire generation =>
    obtain ⟨hstart, heq⟩ := Option.ite_none_right_eq_some.mp hstep
    refine h.expire (calm_of_mayStart ?_) (Option.some.inj heq)
    unfold mayStart
    rw [hstart.1]
    rfl
  | returns flag => exact h.returns hkeeps hstep
  | next => exact h.next hkeeps hstep

end

/-! ### Section 5: When the condition is not met -/

/-- The root of a tree, with one focusable node under it. -/
def childOfRoot (tree : FocusTree F) (focus : F) : FocusTree F where
  nodes := [tree.nodes.head tree.nodes_ne_nil, ⟨none⟩]
  parents := [none, some 0]
  focusableNodeIds := fun f => if f = focus then some 1 else none
  parent_lt := by
    intro id parent hparent
    rcases id with _ | _ | id
    · cases hparent
    · cases hparent
      exact Nat.zero_lt_one
    · cases hparent
  focusable_lt := by
    intro f id hid
    split at hid
    · cases hid
      exact Nat.one_lt_two
    · cases hid
  nodes_ne_nil := List.cons_ne_nil _ _

section

omit [Gpui.Action A] [Target]

theorem contextsOf_childOfRoot (tree : FocusTree F) (focus : F) :
    (childOfRoot tree focus).contextsOf none = tree.contextsOf none := by
  have hroot : tree.nodes[0]? = some (tree.nodes.head tree.nodes_ne_nil) := by
    rw [← head?_eq_getElem?]
    exact head?_eq_some_head tree.nodes_ne_nil
  unfold FocusTree.contextsOf
  rw [FocusTree.pathOf_none, FocusTree.pathOf_none]
  simp only [filterMap_cons, filterMap_nil, hroot]
  rfl

theorem pathOf_childOfRoot (tree : FocusTree F) (focus : F) :
    (childOfRoot tree focus).pathOf (some focus) = [0, 1] := by
  have hnode : (childOfRoot tree focus).focusNodeId (some focus) = 1 := by
    show ((if focus = focus then some 1 else none : Option Nat)).getD 0 = 1
    rw [if_pos rfl]
    rfl
  unfold FocusTree.pathOf
  rw [hnode]
  rfl

end

section

variable (s : KeyWindow A F) (p : PendingInput F) (hasBinding accepts : Bool)
variable (stack : List (KeyCall A F))

omit [Gpui.Action A] [Target] [DecidableEq F]

theorem pendingInput_store : ∃ q, (s.store p hasBinding accepts stack).pendingInput = some q ∧
    q.focus = p.focus ∧ q.keystrokes = p.keystrokes := by
  unfold store
  dsimp only
  split
  · exact ⟨_, rfl, rfl, rfl⟩
  · exact ⟨_, rfl, rfl, rfl⟩

theorem tree_store : (s.store p hasBinding accepts stack).tree = s.tree := by
  unfold store
  dsimp only
  split <;> rfl

theorem focus_store : (s.store p hasBinding accepts stack).focus = s.focus := by
  unfold store
  dsimp only
  split <;> rfl

theorem stack_store : (s.store p hasBinding accepts stack).stack = .handler :: stack := by
  unfold store
  dsimp only
  split <;> rfl

end

omit [Gpui.Action A] [Target] in
theorem takenInput_of_unfocused {p : PendingInput F} (hp : s.pendingInput = some p)
    (hnone : p.focus = none) : s.takenInput = p := by
  unfold takenInput
  simp only [hp, Option.getD_some, hnone, Option.isSome_none, Bool.false_and,
    Bool.false_eq_true, if_false]

/-- Keystrokes recorded without a focus go on in any focus. -/
theorem spoils_unfocused (tree : FocusTree F) (hstart : s.mayStart = true)
    {p : PendingInput F} (hp : s.pendingInput = some p) (hnone : p.focus = none)
    (hne : p.keystrokes ≠ []) {focus : F} (hfocus : s.focus = some focus) :
    ∃ actions s', (machine keymap tree).Meets (Keeps keymap) s actions ∧
      (machine keymap tree).run s actions = some (.ok s') ∧ ¬ s'.Consistent keymap := by
  let other := childOfRoot s.tree focus
  let keystroke : Keystroke := ⟨Modifiers.none, [], none⟩
  let drawn : KeyWindow A F := { s with tree := other }
  have hdraw : s.step keymap (.draw other) = some (.ok drawn) := if_pos hstart
  have hevent : drawn.step keymap (.keyEvent (.modifier keystroke)) =
      some (.ok (drawn.keyEvent (.modifier keystroke))) := if_pos hstart
  refine ⟨[.draw other, .keyEvent (.modifier keystroke)],
    drawn.keyEvent (.modifier keystroke), ⟨?_, ?_⟩, ?_, ?_⟩
  · -- the contexts of the root stay the same
    intro q hq
    rw [hp] at hq
    cases hq
    rw [hnone]
    exact Or.inl (contextsOf_childOfRoot s.tree focus)
  · intro _ _
    exact ⟨trivial, fun _ _ => trivial⟩
  · exact (Machine.run_cons_ok _ hdraw).trans (Machine.run_cons_ok _ hevent)
  · intro hconsistent
    have htaken : (drawn.keyEvent (.modifier keystroke)).takenInput = p :=
      takenInput_of_unfocused hp hnone
    have hpath := hconsistent.completed _ _ _ _ rfl (by rw [htaken]; exact hne)
    rw [htaken, hnone] at hpath
    rw [hfocus, pathOf_childOfRoot, FocusTree.pathOf_none] at hpath
    cases hpath

theorem inv_spoils (tree : FocusTree F) (h : s.Inv keymap) {a : KeyWindow.Action F}
    (hstep : s.step keymap a = some (.ok s')) (hnot : ¬ s.Keeps keymap a) :
    ∃ actions s'', (machine keymap tree).Meets (Keeps keymap) s' actions ∧
      (machine keymap tree).run s' actions = some (.ok s'') ∧ ¬ s''.Consistent keymap := by
  cases a with
  | draw frame =>
    obtain ⟨hstart, heq⟩ := Option.ite_none_right_eq_some.mp hstep
    cases heq
    refine ⟨[], _, trivial, rfl, ?_⟩
    intro hconsistent
    exact hnot (fun p hp => Or.inr (hconsistent.pending p hp).2)
  | returns flag =>
    simp only [step] at hstep
    split at hstep
    · next event keystroke path stack hstack =>
      split at hstep
      · cases hstep
        refine ⟨[], _, trivial, rfl, ?_⟩
        intro hconsistent
        apply hnot
        constructor
        · intro event' keystroke' path' stack' hother _ hne
          rw [hstack] at hother
          cases hother
          -- what is taken up was recorded with the present focus
          rw [← h.takenInput_focus hne]
          exact hconsistent.completed event keystroke path stack rfl hne
        · intro _ _ _ _ hother
          rw [hstack] at hother
          cases hother
      · next hflag =>
        exfalso
        apply hnot
        constructor
        · intro _ _ _ _ _ hflag'
          exact absurd hflag' hflag
        · intro _ _ _ _ hother
          rw [hstack] at hother
          cases hother
    · next event p result stack hstack =>
      cases hstep
      obtain ⟨hne, _⟩ := h.calls (.accepting event p result) (by rw [hstack]; simp)
      obtain ⟨q, hq, hfocus, hkeystrokes⟩ := s.pendingInput_store p result.pendingHasBinding
        (flag && event.asksInputHandler) stack
      by_cases hrecorded : p.focus = none → s.focus = none
      · refine ⟨[], _, trivial, rfl, ?_⟩
        intro hconsistent
        apply hnot
        constructor
        · intro _ _ _ _ hother
          rw [hstack] at hother
          cases hother
        · intro event' p' result' stack' hother
          rw [hstack] at hother
          cases hother
          refine ⟨hrecorded, Or.inr ?_⟩
          have hawaits := (hconsistent.pending q hq).2
          rw [tree_store, hfocus, hkeystrokes] at hawaits
          exact hawaits
      · obtain ⟨hnone, hsome⟩ := Classical.not_imp.mp hrecorded
        obtain ⟨focus, hsome⟩ := Option.ne_none_iff_exists'.mp hsome
        refine spoils_unfocused tree ?_ hq (hfocus.trans hnone) ?_ ((focus_store ..).trans hsome)
        · unfold mayStart runsCode
          rw [stack_store]
          rfl
        · rw [hkeystrokes]
          exact hne
    · next stack hstack =>
      exfalso
      apply hnot
      constructor
      · intro _ _ _ _ hother
        rw [hstack] at hother
        cases hother
      · intro _ _ _ _ hother
        rw [hstack] at hother
        cases hother
    · cases hstep
  | next =>
    obtain ⟨event, hnot⟩ := not_forall.mp hnot
    obtain ⟨path, hnot⟩ := not_forall.mp hnot
    obtain ⟨p, hnot⟩ := not_forall.mp hnot
    obtain ⟨result, hnot⟩ := not_forall.mp hnot
    obtain ⟨stack, hnot⟩ := not_forall.mp hnot
    obtain ⟨hstack, hnot⟩ := Classical.not_imp.mp hnot
    obtain ⟨hne, hnot⟩ := Classical.not_imp.mp hnot
    simp only [step, hstack, Option.some.injEq, Except.ok.injEq] at hstep
    rw [← hstep]
    refine ⟨[], _, trivial, rfl, ?_⟩
    intro hconsistent
    exact hnot (hconsistent.begun event path p result stack rfl hne)
  | _ => exact absurd trivial hnot

/-! ### Section 6: The result -/

theorem inv_inductive (keymap : Keymap A) (tree : FocusTree F) :
    (machine keymap tree).Inductive (Keeps keymap) (Inv keymap) where
  start := inv_start tree
  step := fun _ _ _ h hkeeps hstep => inv_step h hkeeps hstep

/-- **Pending key input stays consistent with the focus** in the runs in which neither
    interceptors nor replays move the path of an event away from the focus, and what is
    recorded still goes on there; and in these runs only. -/
theorem pending_input_consistent (keymap : Keymap A) (tree : FocusTree F) :
    (machine keymap tree).Exact (Keeps keymap) (Consistent keymap) := by
  apply (inv_inductive keymap tree).exact
  · intro s h
    exact h.consistent
  · intro s a s' h hstep hnot
    exact inv_spoils tree h hstep hnot

/-- Two panes, of which the first has chords. -/
def panes : FocusTree Nat where
  nodes := [⟨none⟩, ⟨some ⟨[⟨['x'], none⟩]⟩⟩, ⟨some ⟨[⟨['y'], none⟩]⟩⟩]
  parents := [none, some 0, some 0]
  focusableNodeIds := fun f => if f = 1 then some 1 else if f = 2 then some 2 else none
  parent_lt := by
    intro id parent hparent
    rcases id with _ | _ | _ | id
    · cases hparent
    · cases hparent
      decide
    · cases hparent
      decide
    · cases hparent
  focusable_lt := by
    intro f id hid
    split at hid
    · cases hid
      decide
    · split at hid
      · cases hid
        decide
      · cases hid
  nodes_ne_nil := List.cons_ne_nil _ _

def paneKeymap : Keymap UnitAction :=
  Keymap.new [
    { KeyBinding.plain ['a', 'b'] (.other ⟨0, ['a']⟩) none with
      contextPredicate := some (.identifier ['x']) },
    { KeyBinding.plain ['c', 'd'] (.other ⟨1, ['c']⟩) none with
      contextPredicate := some (.identifier ['x']) }]

omit [Target] in
/-- In the first pane `a` is pending, and `c` replays it.  A listener of `a` moves the focus
    to the second pane, and then `c` is recorded with it. -/
theorem replay_records_focus :
    letI := Target.unix
    ∃ s, (machine paneKeymap panes).run (start panes)
      [.focus 1,
        .keyEvent (.keyDown (Keystroke.plain 'a')), .returns true, .next, .next, .next,
        .returns false, .returns true,
        .keyEvent (.keyDown (Keystroke.plain 'c')), .returns true, .next, .next,
        .focus 2, .returns true, .next, .next, .returns false] = some (.ok s) ∧
      s.tree = panes ∧ ∃ p, s.pendingInput = some p ∧ p.focus = some 2 := by
  refine ⟨_, rfl, rfl, _, rfl, rfl⟩

omit [Target] in
/-- No binding is enabled in the second pane, where `c` is pending after all. -/
theorem replay_moves_focus :
    letI := Target.unix
    ¬ ∀ s : KeyWindow UnitAction Nat,
      (machine paneKeymap panes).Reaches (fun _ _ => True) s → s.Consistent paneKeymap := by
  let _ := Target.unix
  intro h
  obtain ⟨s, hrun, htree, p, hpending, hfocus⟩ := replay_records_focus
  have hreaches : (machine paneKeymap panes).Reaches (fun _ _ => True) s :=
    Machine.Reaches.start.run (.of_forall (fun _ _ _ => trivial) _) hrun
  obtain ⟨r, hextends⟩ := ((h s hreaches).pending p hpending).2
  rw [htree, hfocus] at hextends
  have hdisabled : ∀ binding ∈ paneKeymap.bindings,
      Keymap.bindingEnabled binding (panes.contextsOf (some 2)) = none := by decide
  have henabled := hextends.enabled
  rw [hdisabled r.binding (mem_of_getElem? hextends.stored)] at henabled
  cases henabled

end KeyWindow

end Gpui
