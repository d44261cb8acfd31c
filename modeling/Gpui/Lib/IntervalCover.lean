import Mathlib

/-! # Covering intervals exactly

    Pieces lie in rows.  Each is meant to cover one half-open interval of its row, and covers
    one that may be another.

    * `Covers`: together the pieces cover what they are meant to cover.
    * **`exact_of_covers`**: pieces that come in order, all ends but the last right, cover
      what they are meant to only if each of them does. -/

namespace IntervalCover

variable {ρ σ X : Type*}

structure Piece (ρ σ X : Type*) where
  row : ρ
  tag : σ
  /-- What the piece is meant to cover. -/
  start : X
  stop : X
  /-- What it covers. -/
  left : X
  right : X

variable [LinearOrder X]

def Piece.Meant (piece : Piece ρ σ X) (row : ρ) (tag : σ) (x : X) : Prop :=
  piece.row = row ∧ piece.tag = tag ∧ piece.start ≤ x ∧ x < piece.stop

def Piece.Covered (piece : Piece ρ σ X) (row : ρ) (tag : σ) (x : X) : Prop :=
  piece.row = row ∧ piece.tag = tag ∧ piece.left ≤ x ∧ x < piece.right

/-- The piece covers what it is meant to. -/
def Piece.Exact (piece : Piece ρ σ X) : Prop :=
  piece.left = piece.start ∧ piece.right = piece.stop

/-- What is covered is what is meant. -/
def Covers (pieces : List (Piece ρ σ X)) : Prop :=
  ∀ row tag x,
    (∃ piece ∈ pieces, piece.Covered row tag x) ↔ ∃ piece ∈ pieces, piece.Meant row tag x

theorem Piece.Exact.covered_iff {piece : Piece ρ σ X} (h : piece.Exact) {row : ρ} {tag : σ}
    {x : X} : piece.Covered row tag x ↔ piece.Meant row tag x := by
  unfold Piece.Covered Piece.Meant
  rw [h.1, h.2]

theorem covers_of_exact {pieces : List (Piece ρ σ X)} (h : ∀ piece ∈ pieces, piece.Exact) :
    Covers pieces := by
  intro row tag x
  constructor
  · intro ⟨piece, hmem, hcovered⟩
    exact ⟨piece, hmem, (h piece hmem).covered_iff.1 hcovered⟩
  · intro ⟨piece, hmem, hmeant⟩
    exact ⟨piece, hmem, (h piece hmem).covered_iff.2 hmeant⟩

/-- A piece that another one follows: it ends right, and one that follows in the row lies
    behind it and starts right, if it covers its start at all. -/
structure Precedes (piece next : Piece ρ σ X) : Prop where
  right : piece.right = piece.stop
  behind : piece.row = next.row → piece.stop ≤ next.start
  left : piece.row = next.row → next.start < next.right → next.left = next.start

section

variable {front back : List (Piece ρ σ X)} {piece : Piece ρ σ X}

/-- A piece with pieces before and behind it. -/
structure Between (front : List (Piece ρ σ X)) (piece : Piece ρ σ X)
    (back : List (Piece ρ σ X)) : Prop where
  before : ∀ other ∈ front, Precedes other piece
  behind : ∀ other ∈ back, Precedes piece other
  start_lt_stop : ∀ other ∈ front ++ piece :: back, other.start < other.stop
  covers : Covers (front ++ piece :: back)

omit [LinearOrder X] in
theorem mem_cases {other : Piece ρ σ X} (h : other ∈ front ++ piece :: back) :
    other ∈ front ∨ other = piece ∨ other ∈ back := by
  obtain hfront | hrest := List.mem_append.1 h
  · exact .inl hfront
  · exact .inr (List.mem_cons.1 hrest)

/-- The start of a piece is left of its end. -/
theorem Between.start_lt_right (h : Between front piece back) : piece.start < piece.right := by
  have hpos : piece.start < piece.stop := h.start_lt_stop piece (by simp)
  rcases back with _ | ⟨next, back⟩
  · -- the last piece: no other one reaches its start
    have hmeant : ∃ other ∈ front ++ [piece], other.Meant piece.row piece.tag piece.start :=
      ⟨piece, by simp, rfl, rfl, le_refl _, hpos⟩
    obtain ⟨other, hmem, hrow, _, _, hlt⟩ := (h.covers _ _ _).2 hmeant
    obtain hfront | rfl | hback := mem_cases hmem
    · have hbefore := h.before other hfront
      rw [hbefore.right] at hlt
      exact absurd hlt (not_lt.2 (hbefore.behind hrow))
    · exact hlt
    · cases hback
  · have hnext := h.behind next (by simp)
    rw [hnext.right]
    exact hpos

/-- A piece starts right if those behind it do. -/
theorem Between.left_eq (h : Between front piece back) (hpos : piece.left < piece.right)
    (hback : ∀ other ∈ back, other.row = piece.row → other.left = other.start) :
    piece.left = piece.start := by
  have hstart := h.start_lt_right
  have hlt : piece.start < piece.stop := h.start_lt_stop piece (by simp)
  by_cases hrow : ∃ other ∈ front, other.row = piece.row
  · obtain ⟨other, hmem, hrow⟩ := hrow
    exact (h.before other hmem).left hrow hstart
  · -- the first piece of its row
    have hle : piece.left ≤ piece.start := by
      have hmeant : ∃ other ∈ front ++ piece :: back,
          other.Meant piece.row piece.tag piece.start :=
        ⟨piece, by simp, rfl, rfl, le_refl _, hlt⟩
      obtain ⟨other, hmem, hother, _, hle, _⟩ := (h.covers _ _ _).2 hmeant
      obtain hfront | rfl | hbehind := mem_cases hmem
      · exact absurd ⟨other, hfront, hother⟩ hrow
      · exact hle
      · rw [hback other hbehind hother] at hle
        have hstop := (h.behind other hbehind).behind hother.symm
        exact absurd hle (not_le.2 (lt_of_lt_of_le hlt hstop))
    obtain hsmall | heq := lt_or_eq_of_le hle
    · have hcovered : ∃ other ∈ front ++ piece :: back,
          other.Covered piece.row piece.tag piece.left :=
        ⟨piece, by simp, rfl, rfl, le_refl _, hpos⟩
      obtain ⟨other, hmem, hother, _, hle, _⟩ := (h.covers _ _ _).1 hcovered
      obtain hfront | rfl | hbehind := mem_cases hmem
      · exact absurd ⟨other, hfront, hother⟩ hrow
      · exact absurd hle (not_le.2 hsmall)
      · have hstop := (h.behind other hbehind).behind hother.symm
        have hleft : other.start < other.start :=
          lt_of_le_of_lt hle (lt_trans hsmall (lt_of_lt_of_le hlt hstop))
        exact absurd hleft (lt_irrefl _)
    · exact heq

/-- A piece that starts right ends right. -/
theorem Between.right_eq (h : Between front piece back) (hleft : piece.left = piece.start) :
    piece.right = piece.stop := by
  have hlt : piece.start < piece.stop := h.start_lt_stop piece (by simp)
  have hstart := h.start_lt_right
  rcases back with _ | ⟨next, back⟩
  · obtain hshort | heq | hlong := lt_trichotomy piece.right piece.stop
    · -- its end is meant, and no piece reaches it
      have hmeant : ∃ other ∈ front ++ [piece], other.Meant piece.row piece.tag piece.right :=
        ⟨piece, by simp, rfl, rfl, hstart.le, hshort⟩
      obtain ⟨other, hmem, hrow, _, _, hright⟩ := (h.covers _ _ _).2 hmeant
      obtain hfront | rfl | hback := mem_cases hmem
      · have hbefore := h.before other hfront
        rw [hbefore.right] at hright
        exact absurd (lt_trans hstart hright) (not_lt.2 (hbefore.behind hrow))
      · exact absurd hright (lt_irrefl _)
      · cases hback
    · exact heq
    · -- it covers its stop, which is not meant
      have hcovered : ∃ other ∈ front ++ [piece],
          other.Covered piece.row piece.tag piece.stop :=
        ⟨piece, by simp, rfl, rfl, hleft.trans_le hlt.le, hlong⟩
      obtain ⟨other, hmem, hrow, _, _, hstop⟩ := (h.covers _ _ _).1 hcovered
      obtain hfront | rfl | hback := mem_cases hmem
      · exact absurd (lt_trans hlt hstop) (not_lt.2 ((h.before other hfront).behind hrow))
      · exact absurd hstop (lt_irrefl _)
      · cases hback
  · exact (h.behind next (by simp)).right

end

/-- **Pieces in order cover what they are meant to only if each of them does.** -/
theorem exact_of_covers {pieces : List (Piece ρ σ X)} (hordered : pieces.Pairwise Precedes)
    (hmeant : ∀ piece ∈ pieces, piece.start < piece.stop)
    (hpos : ∀ piece ∈ pieces, piece.left < piece.right) (hcovers : Covers pieces) :
    ∀ piece ∈ pieces, piece.Exact := by
  have hbetween : ∀ front piece back, pieces = front ++ piece :: back →
      Between front piece back := by
    intro front piece back heq
    subst heq
    obtain ⟨_, hback, hfront⟩ := List.pairwise_append.1 hordered
    exact ⟨fun other hmem => hfront other hmem piece (by simp), (List.pairwise_cons.1 hback).1,
      hmeant, hcovers⟩
  intro piece hmem
  obtain ⟨front, back, heq⟩ := List.append_of_mem hmem
  have h := hbetween front piece back heq
  have hleft : piece.left = piece.start := by
    refine h.left_eq (hpos piece hmem) ?_
    intro other hother hrow
    obtain ⟨mid, rest, hrest⟩ := List.append_of_mem hother
    have hsplit : pieces = (front ++ piece :: mid) ++ other :: rest := by
      rw [heq, hrest]
      simp
    have hnext := hbetween _ other rest hsplit
    exact (h.behind other hother).left hrow.symm hnext.start_lt_right
  exact ⟨hleft, h.right_eq hleft⟩

end IntervalCover
