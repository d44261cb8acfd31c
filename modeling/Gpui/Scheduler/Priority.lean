import Mathlib

/-! # Priorities of tasks -/

namespace Gpui

inductive Priority where
  | realtimeAudio
  | high
  | medium
  | low
deriving DecidableEq, Repr

/-- The relative probability of a priority. -/
def Priority.weight : Priority → Nat
  | .high          => 60
  | .medium        => 30
  | .low           => 10
  | .realtimeAudio => 0

end Gpui
