import Gpui.Keymap.Resolve
import Gpui.Keymap.Superset

/-! # Keymap: the bindings shown for an action

    `bindings_for_action` leaves out a binding when a later one with the same
    keystrokes disables it, going by the positions in the keymap and the shape of
    the predicates.  Dispatch goes by depth and by source as well. -/

namespace Gpui

namespace Keymap

section

variable {A : Type} [Action A] {keymap : Keymap A} {action : A} {ix : Nat} {binding : KeyBinding A}

/-! ## What is left out -/

/-- The binding at `ix` is one for `action`. -/
structure Binds (keymap : Keymap A) (action : A) (ix : Nat) (binding : KeyBinding A) : Prop where
  indexed : ix ∈ keymap.bindingIndicesByActionId (Action.typeId action)
  stored : keymap.bindings[ix]? = some binding
  isFor : isFor action binding = true

/-- It is left out of the bindings for `action`. -/
structure LeftOut (keymap : Keymap A) (action : A) (ix : Nat) (binding : KeyBinding A) : Prop
    extends keymap.Binds action ix binding where
  leftOut : keymap.bindingForAction action ix = none

/-- A later null or `Unbind` on the keystrokes of the binding, with no predicate or one that
    counts as a superset. -/
structure Hides (keymap : Keymap A) (ix : Nat) (binding : KeyBinding A) (hiderIx : Nat)
    (hider : KeyBinding A) : Prop where
  stored : keymap.bindings[hiderIx]? = some hider
  later : ix < hiderIx
  keystrokes : hider.keystrokes = binding.keystrokes
  action : hider.action = .noAction ∨ hider.action = .unbind binding.action.name
  context : ∀ predicate, hider.contextPredicate = some predicate →
    ∃ of, binding.contextPredicate = some of ∧ predicate.isSuperset of = true

theorem disables_iff {hider : KeyBinding A} : disables hider binding = true ↔
    hider.keystrokes = binding.keystrokes ∧
      (hider.action = .noAction ∨ hider.action = .unbind binding.action.name) ∧
      ∀ predicate, hider.contextPredicate = some predicate →
        ∃ of, binding.contextPredicate = some of ∧ predicate.isSuperset of = true := by
  have hcontext : disabledBindingMatchesContext hider binding = true ↔
      ∀ predicate, hider.contextPredicate = some predicate →
        ∃ of, binding.contextPredicate = some of ∧ predicate.isSuperset of = true := by
    unfold disabledBindingMatchesContext
    cases hider.contextPredicate <;> cases binding.contextPredicate <;> simp
  unfold disables
  by_cases hkeys : hider.keystrokes = binding.keystrokes
  · cases haction : hider.action with
    | noAction => simp [hkeys, DynAction.isNoAction, hcontext]
    | unbind name =>
      simp [hkeys, DynAction.isNoAction, DynAction.isUnbind, bindingIsUnbound, haction, hcontext,
        and_comm]
    | other _ => simp [hkeys, DynAction.isNoAction, DynAction.isUnbind]
  · simp [hkeys]

theorem leftOut_iff : keymap.LeftOut action ix binding ↔
    keymap.Binds action ix binding ∧ ∃ hiderIx hider, keymap.Hides ix binding hiderIx hider := by
  have hhidden : keymap.isHidden ix binding = true ↔
      ∃ hiderIx hider, keymap.Hides ix binding hiderIx hider := by
    have hmem : ∀ hiderIx, hiderIx ∈ keymap.disabledBindingIndices ↔
        ∃ hider, keymap.bindings[hiderIx]? = some hider ∧ hider.action.isDisabling = true := by
      simp [keymap.disabled_eq, indicesOf, List.mem_zipIdx_iff_getElem?, and_comm]
    simp only [isHidden, List.any_eq_true, hmem, Bool.and_eq_true, decide_eq_true_eq,
      Option.any_eq_true, disables_iff]
    constructor
    · rintro ⟨hiderIx, -, hlater, hider, hstored, hkeys, haction, hcontext⟩
      exact ⟨hiderIx, hider, hstored, hlater, hkeys, haction, hcontext⟩
    · rintro ⟨hiderIx, hider, hstored, hlater, hkeys, haction, hcontext⟩
      refine ⟨hiderIx, ⟨hider, hstored, ?_⟩, hlater, hider, hstored, hkeys, haction, hcontext⟩
      rcases haction with haction | haction <;> rw [haction] <;> rfl
  constructor
  · intro h
    refine ⟨h.toBinds, ?_⟩
    by_contra hnone
    have hleft := h.leftOut
    rw [bindingForAction, h.stored] at hleft
    simp [h.isFor, hhidden, hnone] at hleft
  · rintro ⟨h, hsome⟩
    refine ⟨h, ?_⟩
    rw [bindingForAction, h.stored]
    simp [h.isFor, hhidden.2 hsome]

/-! ## What dispatch makes of it -/

variable [Target] {contextStack : List KeyContext}

/-- Dispatch of its own keystrokes runs the binding at `ix`. -/
def RunsOnOwnKeystrokes (keymap : Keymap A) (contextStack : List KeyContext) (ix : Nat)
    (binding : KeyBinding A) : Prop :=
  (ix, binding) ∈ (resolveBindingsForInput
    (binding.keystrokes.map KeybindingKeystroke.inner) contextStack keymap.reversed).1

/-- The hider is enabled at least as deep as the binding, and its source is no weaker. -/
def InForce (hider binding : KeyBinding A) (depth : Nat) (contextStack : List KeyContext) : Prop :=
  ∃ hiderDepth, bindingEnabled hider contextStack = some hiderDepth ∧ depth ≤ hiderDepth ∧
    source hider ≤ source binding

omit [Action A] [Target] in
theorem Outranks.trans {a b c : Ranked A} (hab : Outranks a b) (hbc : Outranks b c) :
    Outranks a c := by
  unfold Outranks at *
  omega

/-- A hider that is in force silences what it hides, or what silences the hider does. -/
theorem Hides.silenced {hiderIx depth : Nat} {hider : KeyBinding A}
    (h : keymap.Hides ix binding hiderIx hider)
    (hforce : InForce hider binding depth contextStack) :
    keymap.SilencedOn (binding.keystrokes.map KeybindingKeystroke.inner) contextStack
      ⟨depth, ix, binding⟩ := by
  obtain ⟨hiderDepth, henabled, hdepth, hsource⟩ := hforce
  have hcompletes : keymap.Completes (binding.keystrokes.map KeybindingKeystroke.inner) contextStack
      ⟨hiderDepth, hiderIx, hider⟩ :=
    ⟨h.stored, henabled, h.keystrokes ▸ hider.matchKeystrokes_own⟩
  have houtranks : Outranks ⟨hiderDepth, hiderIx, hider⟩ (⟨depth, ix, binding⟩ : Ranked A) := by
    have hlater := h.later
    show depth < hiderDepth ∨ depth = hiderDepth ∧ ix < hiderIx
    omega
  rcases h.action with hnull | hunbind
  · exact .inl ⟨_, hcompletes, by rw [hnull]; rfl, houtranks, hsource⟩
  · by_cases hnullified : ∃ n, keymap.Completes (binding.keystrokes.map KeybindingKeystroke.inner)
        contextStack n ∧ Nullifies n ⟨hiderDepth, hiderIx, hider⟩
    · obtain ⟨n, hn, hnull⟩ := hnullified
      exact .inl ⟨n, hn, hnull.noAction, hnull.outranks.trans houtranks,
        hnull.source_le.trans hsource⟩
    · refine .inr ⟨_, hcompletes, ?_, houtranks, fun n hn hnull => hnullified ⟨n, hn, hnull⟩⟩
      simp [bindingIsUnbound, h.keystrokes, hunbind]

/-- **When a binding that is left out is not run.**  In the contexts that enable it, each later
    binding that hides it must be in force, or something else must silence it by the rules of
    dispatch. -/
theorem leftOut_not_run_iff (keymap : Keymap A) (action : A) (ix : Nat) (binding : KeyBinding A)
    (contextStack : List KeyContext) :
    (keymap.LeftOut action ix binding → ¬ keymap.RunsOnOwnKeystrokes contextStack ix binding) ↔
      (keymap.Binds action ix binding →
        ∀ depth, bindingEnabled binding contextStack = some depth →
          ∀ hiderIx hider, keymap.Hides ix binding hiderIx hider →
            InForce hider binding depth contextStack ∨
              keymap.SilencedOn (binding.keystrokes.map KeybindingKeystroke.inner) contextStack
                ⟨depth, ix, binding⟩) := by
  rw [leftOut_iff, RunsOnOwnKeystrokes, mem_resolve]
  constructor
  · intro hnot hbinds depth henabled hiderIx hider hhides
    by_contra hneither
    refine hnot ⟨hbinds, hiderIx, hider, hhides⟩ ⟨depth,
      ⟨hbinds.stored, henabled, binding.matchKeystrokes_own⟩, ?_, fun h => hneither (.inr h)⟩
    -- the bindings of an action are not disabling ones
    apply DynAction.isDisabling_eq_false.mpr
    have hfor := hbinds.isFor
    rw [isFor] at hfor
    cases haction : binding.action with
    | noAction => rw [haction] at hfor; cases hfor
    | unbind name => rw [haction] at hfor; cases hfor
    | other a => exact ⟨a, rfl⟩
  · intro hsilenced ⟨hbinds, hiderIx, hider, hhides⟩ ⟨depth, hcompletes, hsurvives⟩
    rcases hsilenced hbinds depth hcompletes.enabled hiderIx hider hhides with hforce | h
    · exact hsurvives.2 (hhides.silenced hforce)
    · exact hsurvives.2 h

end

/-- A binding of the user and, after it, a null from a weaker source: the binding is
    left out of those for its action, and dispatch runs it. -/
theorem leftOut_runs :
    ¬ ∀ (_ : Target) (keymap : Keymap UnitAction) (action : UnitAction) (ix : Nat)
      (binding : KeyBinding UnitAction) (contextStack : List KeyContext),
      keymap.LeftOut action ix binding →
        ¬ keymap.RunsOnOwnKeystrokes contextStack ix binding := by
  intro h
  apply h Target.unix (new [KeyBinding.plain ['a'] (.other ⟨0, ['x']⟩) none,
    KeyBinding.plain ['a'] .noAction (some 1)]) ⟨0, ['x']⟩ 0
    (KeyBinding.plain ['a'] (.other ⟨0, ['x']⟩) none) []
  · exact ⟨⟨by decide, by decide, by decide⟩, by decide⟩
  · unfold RunsOnOwnKeystrokes
    decide

end Keymap

end Gpui
