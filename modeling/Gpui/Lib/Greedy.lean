import Mathlib

/-! # Splitting a list by longest matches

    Pieces are taken off the front of a list by a lookup: the longest prefix the
    lookup knows, or one element where it knows none.  `Split` says what the
    pieces of such a pass are and what it leaves. -/

namespace Greedy

variable {α β : Type} {lookup : List α → List β}

/-- `piece` is the longest prefix of the input that the lookup knows. -/
structure LongestMatch (lookup : List α → List β) (input piece : List α) : Prop where
  ne_nil : piece ≠ []
  isPrefix : piece <+: input
  known : lookup piece ≠ []
  longest : ∀ piece', piece' ≠ [] → piece' <+: input → lookup piece' ≠ [] →
    piece'.length ≤ piece.length

/-- The lookup knows no prefix of the input. -/
def NoMatch (lookup : List α → List β) (input : List α) : Prop :=
  ∀ piece, piece ≠ [] → piece <+: input → lookup piece = []

/-- One piece taken off the front. -/
inductive Piece (lookup : List α → List β) (input : List α) : List α → Prop where
  | longest {piece : List α} (h : LongestMatch lookup input piece) : Piece lookup input piece
  | single {a : α} (h : NoMatch lookup input) (hfront : [a] <+: input) : Piece lookup input [a]

/-- The pieces taken off the front of a list one after the other, and the rest. -/
inductive Split (lookup : List α → List β) : List α → List (List α) → List α → Prop where
  | done (rest : List α) : Split lookup rest [] rest
  | cons {piece rest last : List α} {pieces : List (List α)}
      (piece_ok : Piece lookup (piece ++ rest) piece) (tail : Split lookup rest pieces last) :
      Split lookup (piece ++ rest) (piece :: pieces) last

/-- **Nothing is lost, doubled or moved.** -/
theorem Split.flatten_append {input last : List α} {pieces : List (List α)}
    (h : Split lookup input pieces last) : input = pieces.flatten ++ last := by
  induction h with
  | done rest => rfl
  | cons piece_ok tail ih =>
    rw [List.flatten_cons, List.append_assoc, ← ih]

theorem Split.single {piece rest : List α} (h : Piece lookup (piece ++ rest) piece) :
    Split lookup (piece ++ rest) [piece] rest :=
  Split.cons h (Split.done rest)

end Greedy
