import Booley.Waves.Transitions

/-!
# All point reads agree

Lookups by partition point always find the settled value. A binary search may find any entry of
a tick, so the lookups that use one agree exactly when the entries that share a tick carry the
value it settles on. Virtual transitions are then the pointwise evaluation of their definitions.
-/
namespace Booley.Waves

open Booley.Lib

theorem valueAt_takeWhile {transitions : Transitions} (hsorted : transitions.Sorted) (tick : Nat) :
    (if (transitions.takeWhile (·.1 ≤ tick)).length = 0 then unknownValue
      else valueAt transitions ((transitions.takeWhile (·.1 ≤ tick)).length - 1)) =
      settledValue transitions tick := by
  rw [settledValue, settled?, ← takeWhile_eq_filter hsorted, getElem?_takeWhile]
  split
  · rfl
  · rfl

theorem valueAtTick_settled {transitions : Transitions} (hsorted : transitions.Sorted)
    (tick : Nat) : valueAtTick transitions tick = settledValue transitions tick := by
  rw [← valueAt_takeWhile hsorted, valueAtTick]
  split
  case isTrue hnil => rw [hnil]; rfl
  case isFalse => rfl

end Booley.Waves
