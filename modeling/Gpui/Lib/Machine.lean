import Mathlib

/-! # Machines

    A system that takes one step after another: a start state and, for every action, the
    state after it.  An action that is not possible has no result, and one that stops the
    program has an error.

    * `Reaches Allowed` are the states of the runs all of whose steps meet a condition.
    * `Inductive Allowed Inv` is the rule of invariants: what the start meets and every
      allowed step keeps holds in all these states.
    * `Exact Allowed Good` says that a condition on the steps is the exact one: with it all
      states are good, and the other steps spoil a run. -/

structure Machine (ε : Type u) (σ : Type v) (α : Type w) where
  start : σ
  step : σ → α → Option (Except ε σ)

namespace Machine

variable {ε : Type u} {σ : Type v} {α : Type w} {m : Machine ε σ α}
variable {Allowed : σ → α → Prop} {Inv Inv' : σ → Prop}

/-! ### Runs -/

/-- The states of the runs all of whose steps meet a condition. -/
inductive Reaches (m : Machine ε σ α) (Allowed : σ → α → Prop) : σ → Prop where
  | start : Reaches m Allowed m.start
  | step : ∀ {s s' : σ} (a : α), Reaches m Allowed s → Allowed s a →
      m.step s a = some (.ok s') → Reaches m Allowed s'

/-- The outcome of some actions, if they are possible. -/
def run (m : Machine ε σ α) (s : σ) : List α → Option (Except ε σ)
  | []        => some (.ok s)
  | a :: rest =>
      match m.step s a with
      | none            => none
      | some (.error e) => some (.error e)
      | some (.ok s')   => m.run s' rest

@[simp] theorem run_nil (s : σ) : m.run s [] = some (.ok s) := rfl

variable {s s' : σ} {actions : List α}

theorem run_cons_ok {a : α} (rest : List α) (h : m.step s a = some (.ok s')) :
    m.run s (a :: rest) = m.run s' rest := by
  rw [run, h]

/-- A step that is possible only under a condition. -/
theorem guarded_ok_iff {c : Prop} [Decidable c] :
    (if c then some (.ok s : Except ε σ) else none) = some (.ok s') ↔ c ∧ s = s' := by
  rw [Option.ite_none_right_eq_some, Option.some.injEq, Except.ok.injEq]

/-- Every step of some actions meets the condition, as far as they are possible. -/
def Meets (m : Machine ε σ α) (Allowed : σ → α → Prop) (s : σ) : List α → Prop
  | []        => True
  | a :: rest => Allowed s a ∧ ∀ s', m.step s a = some (.ok s') → m.Meets Allowed s' rest

instance decidableAfter (outcome : Option (Except ε σ)) (P : σ → Prop) [DecidablePred P] :
    Decidable (∀ s', outcome = some (.ok s') → P s') :=
  match outcome with
  | none            => .isTrue (fun _ h => by cases h)
  | some (.error _) => .isTrue (fun _ h => by cases h)
  | some (.ok s')   =>
      decidable_of_iff (P s') ⟨fun hs _ h => by cases h; exact hs, fun h => h s' rfl⟩

instance decidableReached (outcome : Option (Except ε σ)) (P : σ → Prop) [DecidablePred P] :
    Decidable (∃ s', outcome = some (.ok s') ∧ P s') :=
  match outcome with
  | none            => .isFalse (fun ⟨_, h, _⟩ => by cases h)
  | some (.error _) => .isFalse (fun ⟨_, h, _⟩ => by cases h)
  | some (.ok s')   =>
      decidable_of_iff (P s') ⟨fun hs => ⟨s', rfl, hs⟩, fun ⟨_, h, hs⟩ => by cases h; exact hs⟩

instance decidableMeets [∀ s, DecidablePred (Allowed s)] :
    ∀ (actions : List α) (s : σ), Decidable (m.Meets Allowed s actions)
  | [],        _ => .isTrue trivial
  | a :: rest, s =>
      have : DecidablePred (m.Meets Allowed · rest) := decidableMeets rest
      inferInstanceAs (Decidable (Allowed s a ∧ ∀ s', m.step s a = some (.ok s') →
        m.Meets Allowed s' rest))

theorem Meets.of_forall (h : ∀ s, ∀ a ∈ actions, Allowed s a) (s : σ) :
    m.Meets Allowed s actions := by
  induction actions generalizing s with
  | nil => trivial
  | cons a rest ih =>
    refine ⟨h s a (by simp), ?_⟩
    intro s' _
    exact ih (fun s b hb => h s b (by simp [hb])) s'

theorem Reaches.mono {Allowed' : σ → α → Prop} (himp : ∀ s a, Allowed s a → Allowed' s a)
    (h : m.Reaches Allowed s) : m.Reaches Allowed' s := by
  induction h with
  | start => exact .start
  | step a _ hallowed hstep ih => exact .step a ih (himp _ a hallowed) hstep

theorem Reaches.run (h : m.Reaches Allowed s)
    (hmeets : m.Meets Allowed s actions) (hrun : m.run s actions = some (.ok s')) :
    m.Reaches Allowed s' := by
  -- induction on the actions, from any state
  induction actions generalizing s with
  | nil =>
    cases hrun
    exact h
  | cons a rest ih =>
    obtain ⟨ha, hrest⟩ := hmeets
    unfold Machine.run at hrun
    split at hrun
    · cases hrun
    · cases hrun
    · rename_i next hstep
      exact ih (.step a h ha hstep) (hrest next hstep) hrun

/-! ### Invariants -/

/-- The start meets the invariant, and every allowed step keeps it. -/
structure Inductive (m : Machine ε σ α) (Allowed : σ → α → Prop) (Inv : σ → Prop) : Prop where
  start : Inv m.start
  step : ∀ s a s', Inv s → Allowed s a → m.step s a = some (.ok s') → Inv s'

theorem Inductive.holds (h : m.Inductive Allowed Inv) (hs : m.Reaches Allowed s) :
    Inv s := by
  induction hs with
  | start => exact h.start
  | step a _ hallowed hstep ih => exact h.step _ a _ ih hallowed hstep

/-! ### Exact conditions -/

/-- In the runs whose steps meet the condition every state is good, and a step that does
    not meet it goes to a state from which allowed steps lead to a bad one, so that it is the
    disallowed step that spoils the run. -/
structure Exact (m : Machine ε σ α) (Allowed : σ → α → Prop) (Good : σ → Prop) : Prop where
  good : ∀ s, m.Reaches Allowed s → Good s
  spoils : ∀ s a s', m.Reaches Allowed s → m.step s a = some (.ok s') → ¬ Allowed s a →
    ∃ actions s'', m.Meets Allowed s' actions ∧ m.run s' actions = some (.ok s'') ∧ ¬ Good s''

/-- The condition is the exact one if an invariant keeps the states good and the
    disallowed steps from it spoil the run. -/
theorem Inductive.exact {Good : σ → Prop} (h : m.Inductive Allowed Inv)
    (hgood : ∀ s, Inv s → Good s)
    (hspoils : ∀ s a s', Inv s → m.step s a = some (.ok s') → ¬ Allowed s a →
      ∃ actions s'', m.Meets Allowed s' actions ∧ m.run s' actions = some (.ok s'') ∧
        ¬ Good s'') :
    m.Exact Allowed Good where
  good := fun s hs => hgood s (h.holds hs)
  spoils := fun s a s' hs => hspoils s a s' (h.holds hs)

end Machine
