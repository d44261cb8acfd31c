import Mathlib

/-! # Partial computations and loops

    A computation that may stop the program is an `Except ε α`.  This module
    gives the two things every proof about such computations needs:

    * `Ensures Q E x`: a returned value satisfies `Q`, a failure satisfies `E`.
      Total correctness is `Returns Q x`, which rules the failure out.
    * `loop`: a body iterated under a bound, with the while rule `loop_ensures`.
      The rule asks for an invariant and a measure, so that a proof by it also
      shows that the bound is never met. -/

namespace Exec

variable {ε : Type u} {α β : Type v}

/-! ## Postconditions -/

/-- `x` returns a value satisfying `Q` or fails with an error satisfying `E`. -/
def Ensures (Q : α → Prop) (E : ε → Prop) : Except ε α → Prop
  | .ok a    => Q a
  | .error e => E e

/-- Total correctness: `x` returns, and its value satisfies `Q`. -/
def Returns (Q : α → Prop) (x : Except ε α) : Prop :=
  ∃ a, x = .ok a ∧ Q a

variable {Q : α → Prop} {E : ε → Prop} {a : α} {e : ε}

@[simp] theorem ensures_ok : Ensures Q E (.ok a) ↔ Q a := Iff.rfl

@[simp] theorem ensures_error : Ensures Q E (.error e) ↔ E e := Iff.rfl

@[simp] theorem returns_ok : Returns Q (.ok a : Except ε α) ↔ Q a :=
  ⟨fun ⟨_, h, hq⟩ => by cases h; exact hq, fun hq => ⟨a, rfl, hq⟩⟩

variable {x : Except ε α} {f : α → Except ε β}

theorem Returns.ensures (h : Returns Q x) : Ensures Q E x := by
  obtain ⟨a, rfl, hq⟩ := h
  exact hq

theorem Ensures.returns (h : Ensures Q (fun _ => False) x) : Returns Q x := by
  cases x with
  | ok a => exact ⟨a, rfl, h⟩
  | error e => exact h.elim

theorem Ensures.of_ok (h : Ensures Q E x) (hx : x = .ok a) : Q a := by
  rwa [hx] at h

theorem Ensures.of_error (h : Ensures Q E x) (hx : x = .error e) : E e := by
  rwa [hx] at h

/-- **Consequence rule.** -/
theorem Ensures.imp {Q' : α → Prop} {E' : ε → Prop} (h : Ensures Q E x) (hQ : ∀ a, Q a → Q' a)
    (hE : ∀ e, E e → E' e) :
    Ensures Q' E' x := by
  cases x with
  | ok a => exact hQ a h
  | error e => exact hE e h

/-- The value of a computation is the one it returns. -/
theorem Ensures.with_eq (h : Ensures Q E x) : Ensures (fun a => Q a ∧ x = .ok a) E x := by
  cases x with
  | ok a => exact ⟨h, rfl⟩
  | error e => exact h

theorem Returns.imp {Q' : α → Prop} (h : Returns Q x) (hQ : ∀ a, Q a → Q' a) : Returns Q' x := by
  obtain ⟨a, rfl, hq⟩ := h
  exact ⟨a, rfl, hQ a hq⟩

/-- **Sequencing rule.** -/
theorem Ensures.bind {R : β → Prop} (h : Ensures Q E x) (hf : ∀ a, Q a → Ensures R E (f a)) :
    Ensures R E (x >>= f) := by
  cases x with
  | ok a => exact hf a h
  | error e => exact h

@[simp] theorem ok_bind (a : α) (f : α → Except ε β) :
    ((.ok a : Except ε α) >>= f) = f a := rfl

@[simp] theorem error_bind (e : ε) (f : α → Except ε β) :
    ((.error e : Except ε α) >>= f) = .error e := rfl

@[simp] theorem pure_eq_ok (a : α) : (pure a : Except ε α) = .ok a := rfl

theorem bind_eq_ok {b : β} : x >>= f = .ok b ↔ ∃ a, x = .ok a ∧ f a = .ok b := by
  cases x with
  | ok a => exact ⟨fun h => ⟨a, rfl, h⟩, fun ⟨_, h, hb⟩ => by cases h; exact hb⟩
  | error e => exact ⟨fun h => (nomatch h), fun ⟨_, h, _⟩ => (nomatch h)⟩

theorem map_eq_ok {f : α → β} {b : β} : x.map f = .ok b ↔ ∃ a, x = .ok a ∧ f a = b := by
  cases x with
  | ok a => exact ⟨fun h => ⟨a, rfl, Except.ok.inj h⟩, fun ⟨_, h, hb⟩ => by cases h; rw [← hb]; rfl⟩
  | error e => exact ⟨fun h => (nomatch h), fun ⟨_, h, _⟩ => (nomatch h)⟩

/-- Mapping a computation that returns on every element returns. -/
theorem mapM_eq_ok {g : α → β} :
    ∀ {l : List α}, (∀ x ∈ l, f x = .ok (g x)) → l.mapM f = .ok (l.map g)
  | [],     _ => rfl
  | x :: l, h => by
      have ih := mapM_eq_ok (l := l) (fun y hy => h y (by simp [hy]))
      rw [List.mapM_cons, h x (by simp), ok_bind, ih]
      rfl

/-! ## Loops -/

/-- What one pass through a loop body decides. -/
inductive Next (σ ρ : Type v) where
  | again (s : σ)
  | done (r : ρ)

variable {σ ρ : Type v}

/-- Iterate `body` at most `n` times; `bound` is the error of a loop that is
    still running then. -/
def loop (bound : ε) (body : σ → Except ε (Next σ ρ)) : Nat → σ → Except ε ρ
  | 0,     _ => .error bound
  | n + 1, s =>
      match body s with
      | .error e         => .error e
      | .ok (.again s')  => loop bound body n s'
      | .ok (.done r)    => .ok r

/-- A pass that keeps `Inv` and brings `measure` below `n`, or ends with `Q`. -/
def Pass (Inv : σ → Prop) (measure : σ → Nat) (n : Nat) (Q : ρ → Prop) : Next σ ρ → Prop
  | .again s => Inv s ∧ measure s < n
  | .done r  => Q r

@[simp] theorem pass_done {Inv : σ → Prop} {measure : σ → Nat} {n : Nat} {Q : ρ → Prop}
    {r : ρ} : Pass Inv measure n Q (.done r) ↔ Q r := Iff.rfl

variable {body : σ → Except ε (Next σ ρ)} {bound : ε}

/-- **While rule**: an invariant kept by every pass, and a measure that every
    pass decreases, carry the postcondition of the last pass to the loop. -/
theorem loop_ensures (Inv : σ → Prop) (measure : σ → Nat) {Q : ρ → Prop}
    (hbody : ∀ s, Inv s → Ensures (Pass Inv measure (measure s) Q) E (body s)) :
    ∀ n s, Inv s → measure s < n → Ensures Q E (loop bound body n s) := by
  intro n
  induction n with
  | zero => intro s _ hlt; omega
  | succ n ih =>
    intro s hs hlt
    have hb := hbody s hs
    unfold loop
    match hbs : body s with
    | .error e => rw [hbs] at hb; exact hb
    | .ok (.done r) => rw [hbs] at hb; exact hb
    | .ok (.again s') =>
      rw [hbs] at hb
      obtain ⟨hs', hm⟩ := hb
      exact ih s' hs' (by omega)

/-- The while rule for total correctness. -/
theorem loop_returns (Inv : σ → Prop) (measure : σ → Nat) {Q : ρ → Prop}
    (hbody : ∀ s, Inv s → Returns (Pass Inv measure (measure s) Q) (body s)) :
    ∀ n s, Inv s → measure s < n → Returns Q (loop bound body n s) :=
  fun n s hs hlt => (loop_ensures (E := fun _ => False) Inv measure
    (fun s hs => (hbody s hs).ensures) n s hs hlt).returns

/-- A pass that leaves fewer passes to come, or ends with `Q`. -/
def Counts (Inv : Nat → σ → Prop) (n : Nat) (Q : ρ → Prop) : Next σ ρ → Prop
  | .again s => ∃ k, k < n ∧ Inv k s
  | .done r  => Q r

/-- The while rule with a measure that the state does not hold. -/
theorem loop_counts (Inv : Nat → σ → Prop) {Q : ρ → Prop}
    (hbody : ∀ n s, Inv n s → Ensures (Counts Inv n Q) E (body s)) :
    ∀ n s k, Inv k s → k < n → Ensures Q E (loop bound body n s) := by
  intro n
  induction n with
  | zero => intro s k _ hlt; omega
  | succ n ih =>
    intro s k hs hlt
    have hb := hbody k s hs
    unfold loop
    match hbs : body s with
    | .error e => rw [hbs] at hb; exact hb
    | .ok (.done r) => rw [hbs] at hb; exact hb
    | .ok (.again s') =>
      rw [hbs] at hb
      obtain ⟨k', hk', hs'⟩ := hb
      exact ih s' k' hs' (by omega)

/-- A pass that keeps `Inv`, or ends with `Q`. -/
def Keeps (Inv : σ → Prop) (Q : ρ → Prop) : Next σ ρ → Prop
  | .again s => Inv s
  | .done r  => Q r

/-- The while rule for partial correctness: with no measure, nothing is known of
    how the loop fails. -/
theorem loop_partial (Inv : σ → Prop) {Q : ρ → Prop}
    (hbody : ∀ s, Inv s → Ensures (Keeps Inv Q) (fun _ => True) (body s)) :
    ∀ n s, Inv s → Ensures Q (fun _ => True) (loop bound body n s) := by
  intro n
  induction n with
  | zero => intro s _; trivial
  | succ n ih =>
    intro s hs
    have hb := hbody s hs
    unfold loop
    match hbs : body s with
    | .error e => trivial
    | .ok (.done r) => rw [hbs] at hb; exact hb
    | .ok (.again s') => rw [hbs] at hb; exact ih s' hb

end Exec
