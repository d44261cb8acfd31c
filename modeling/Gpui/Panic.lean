import Gpui.Lib.Exec

/-! # Panics

    A function of the code that can panic is modelled as a computation in `Run`:
    a panic is an `Except` error.  The debug assertions are on. -/

namespace Gpui

/-- The ways the code can panic.  `loopBound` is not one of them: it is the
    error of a modelled loop that would not end, and is never reached. -/
inductive Panic where
  /-- "item should fit into fixed size ArrayVec", on the arrays of a node. -/
  | unwrapOob
  /-- "item should fit into fixed size ArrayVec", on the stack of a cursor. -/
  | stackFull
  | unwrapNone
  | unreachableCode
  | leafHasNoChildTrees
  | internalHasNoItems
  | addOverflow
  | subOverflow
  | indexOutOfRange
  /-- "cannot seek backward". -/
  | cannotSeekBackward
  /-- "Must call `seek`, `next` or `prev` before calling this method". -/
  | mustSeekFirst
  | debugAssert
  | loopBound
  deriving DecidableEq, Repr

abbrev Run := Except Panic

/-- `xs[i]`. -/
def getIndex {α : Type} (xs : List α) (i : Nat) : Run α :=
  match xs[i]? with
  | some x => .ok x
  | none   => .error .indexOutOfRange

theorem getIndex_eq_ok {α : Type} {xs : List α} {i : Nat} {x : α} (h : xs[i]? = some x) :
    getIndex xs i = .ok x := by
  rw [getIndex, h]

end Gpui
