import Booley.Lib.BinarySearch
import Booley.Lib.Timeline
import Booley.Waves.Virtual

/-!
# Reading transitions

The transitions of a signal are its values in the order of their ticks. Point reads look up the
value at a tick, by a partition point or by a binary search, and the transitions of a virtual
signal are evaluated at the ticks where a signal it names changes.
-/
namespace Booley.Waves

open Booley.Lib

abbrev Transitions := Timeline Text

/-- The value of a signal before its first transition. -/
def unknownValue : Text := ['x']

/-- The value that a tick settles on. -/
def settledValue (transitions : Transitions) (tick : Nat) : Text :=
  (settled? transitions tick).getD unknownValue

/-! ## Point reads -/

def valueAt (transitions : Transitions) (index : Nat) : Text :=
  (transitions[index]?.map (·.2)).getD unknownValue

/-- The most recent value at or before a tick, by a partition point. -/
def valueAtTick (transitions : Transitions) (tick : Nat) : Text :=
  if transitions = [] then unknownValue
  else
    let last := (transitions.takeWhile (·.1 ≤ tick)).length
    if last = 0 then unknownValue else valueAt transitions (last - 1)

section Collecting

variable (prior real : List Transitions) (tickMin tickMax : Nat)

def collectTicks (transitions : Transitions) : List Nat :=
  (transitions.map (·.1)).filter fun t => tickMin ≤ t ∧ t ≤ tickMax

def collectRhsTicks (rhs : ResolvedRhs) : List Nat :=
  match rhs with
  | .value _ => []
  | .signal idx _ _ => collectTicks tickMin tickMax (real.getD idx [])

def collectAtomTicks (atom : ResolvedAtom) : List Nat :=
  match atom with
  | .nonZero idx _ _ => collectTicks tickMin tickMax (real.getD idx [])
  | .equal idx _ _ rhs | .notEqual idx _ _ rhs | .gt idx _ _ rhs | .gte idx _ _ rhs
  | .lt idx _ _ rhs | .lte idx _ _ rhs =>
    collectTicks tickMin tickMax (real.getD idx []) ++ collectRhsTicks real tickMin tickMax rhs
  | .virtualRef vi => collectTicks tickMin tickMax (prior.getD vi [])

mutual

/-- The ticks in the window at which something that an expression names changes. -/
def collectExprTicks : ResolvedExpr → List Nat
  | .atom atom => collectAtomTicks prior real tickMin tickMax atom
  | .not inner => collectExprTicks inner
  | .combine _ children => collectExprsTicks children

def collectExprsTicks : List ResolvedExpr → List Nat
  | [] => []
  | child :: rest => collectExprTicks child ++ collectExprsTicks rest

end

end Collecting

end Booley.Waves
