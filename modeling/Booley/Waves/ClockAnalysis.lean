import Booley.Waves.CycleRuns
import Booley.Waves.Transitions

/-!
# The analysis of a clock

The rising edges of the sampled clock are held against its uniform grid. The first edge off the
grid and the first unknown value end the regular part of the clock, and in that part an edge that
comes more than a period late leaves grid ticks without an edge. Ticks are unsigned 64-bit
numbers: arithmetic that leaves them has no result.
-/
namespace Booley.Waves

open Booley.Lib

/-! ## Checked arithmetic -/

def checkedTick (n : Nat) : Option Nat := if n < tickLimit then some n else none

def checkedSub (n m : Nat) : Option Nat := if m ≤ n then some (n - m) else none

theorem checkedTick_eq {n : Nat} (h : n < tickLimit) : checkedTick n = some n := if_pos h

theorem checkedSub_eq {n m : Nat} (h : m ≤ n) : checkedSub n m = some (n - m) := if_pos h

/-! ## Findings -/

structure ClockFinding where
  reason : String
  tick : Option Nat
  detail : String
  deriving DecidableEq, Repr

structure StopSummary where
  stretches : Nat
  totalCycles : Nat
  longest : Option (Nat × Nat)
  deriving DecidableEq, Repr

structure ClockVerdict where
  status : String
  reason : String
  clock : Text
  firstOffGridTick : Option Nat
  firstOffGridCycle : Option Nat
  findings : List ClockFinding
  stopped : StopSummary
  deriving DecidableEq, Repr

structure ClockAnalysis where
  verdict : ClockVerdict
  /-- Inclusive missing grid ticks, only in the regular part. -/
  stoppedTicks : List (Nat × Nat)
  deriving DecidableEq, Repr

/-! ## Rising edges -/

def risesFrom (previous : Text) : Transitions → List Nat
  | [] => []
  | (tick, value) :: rest =>
    if previous == ['0'] && value == ['1'] then tick :: risesFrom value rest
    else risesFrom value rest

def risingTicks (transitions : Transitions) : List Nat := risesFrom ['x'] transitions

/-- Pairs of consecutive edges. -/
def edgePairs (rises : List Nat) : List (Nat × Nat) := rises.zip rises.tail

/-- Every edge is within one tick of its place in a uniform clock with the same ends. -/
def cadenceFits (start elapsed n : Nat) : Nat → List Nat → Option Bool
  | _, [] => some true
  | i, tick :: rest => do
    let since ← checkedSub tick start
    let scaled ← checkedWide (since * n)
    let expected ← checkedWide (elapsed * i)
    if max scaled expected - min scaled expected < n then cadenceFits start elapsed n (i + 1) rest
    else some false

/-- The gaps are of two sizes, one tick apart, and both sizes come more than once. -/
def twoGapSizes (gaps : List Nat) (lo hi : Nat) : Option Bool :=
  if lo = 0 then some false
  else (checkedTick (lo + 1)).map fun next =>
    hi = next && 2 ≤ gaps.count lo && 2 ≤ gaps.count hi

def fractionalCadence (rises : List Nat) : Option Bool :=
  if rises.length < 7 then some false
  else do
    let gaps ← (edgePairs rises).mapM fun pair => checkedSub pair.2 pair.1
    let lo ← gaps.min?
    let hi ← gaps.max?
    let sizes ← twoGapSizes gaps lo hi
    if sizes then
      let start ← rises.head?
      let last ← rises.getLast?
      let elapsed ← checkedSub last start
      if elapsed % (rises.length - 1) = 0 then some false
      else cadenceFits start elapsed (rises.length - 1) 0 rises
    else some false

/-! ## The regular part -/

def isOffGrid (first period tick : Nat) : Bool := tick < first || (tick - first) % period != 0

def offGridRise (period first : Nat) (rises : List Nat) : Option Nat :=
  if 0 < period then rises.find? (isOffGrid first period) else none

/-- The first unknown value after the first edge. -/
def unknownAfter (transitions : Transitions) (rises : List Nat) : Option Nat :=
  rises.head?.bind fun start =>
    (transitions.find? fun transition => start < transition.1 && containsXz transition.2).map (·.1)

def regularEnd (offGrid unknown : Option Nat) : Nat :=
  (offGrid.toList ++ unknown.toList).min?.getD (tickLimit - 1)

/-- The grid ticks between late edges and the ones before them, up to the end of the regular
part. -/
def stoppedStretches (period cutoff : Nat) : List (Nat × Nat) → Option (List (Nat × Nat))
  | [] => some []
  | (rise, next) :: rest =>
    if cutoff ≤ next then some []
    else do
      let gap ← checkedSub next rise
      if period < gap then
        let lo ← checkedTick (rise + period)
        let hi ← checkedSub next period
        (stoppedStretches period cutoff rest).map ((lo, hi) :: ·)
      else stoppedStretches period cutoff rest

def regularStretches (period cutoff : Nat) (rises : List Nat) : Option (List (Nat × Nat)) :=
  if 0 < period then stoppedStretches period cutoff (edgePairs rises) else some []

/-! ## The verdict -/

def edgeFindings (unusable : Bool) (rises : List Nat) : List ClockFinding :=
  if unusable then
    [{ reason := "insufficient_edges"
       tick := rises.head?
       detail := "fewer than two rising edges; no usable clock grid" }]
  else []

def offGridFindings (rises : List Nat) : Option Nat → Option (List ClockFinding)
  | none => some []
  | some tick => (fractionalCadence rises).map fun fractional =>
    [{ reason := if fractional then "non_integer_period" else "off_grid_edge"
       tick := some tick
       detail := if fractional then
           "inferred quantized non-integer period cadence; use --async with tick/time bounds"
         else "real rising edge is off the uniform grid; use --async with tick/time bounds" }]

def unknownFindings : Option Nat → List ClockFinding
  | none => []
  | some tick =>
    [{ reason := "unknown_clock"
       tick := some tick
       detail := "clock becomes X/Z after its first rising edge; use --async" }]

def offGridCycle (first period : Nat) : Option Nat → Option (Option Nat)
  | none => some none
  | some tick => do
    let since ← checkedSub tick first
    let cycle ← checkedTick (since / period + 1)
    some (some cycle)

def clockStatus (unusable : Bool) (offGrid unknown : Option Nat) : String :=
  if unusable then "unavailable"
  else if offGrid.isSome || unknown.isSome then "warning"
  else "pass"

def clockReason (findings : List ClockFinding) (stoppedTicks : List (Nat × Nat)) : String :=
  match findings with
  | finding :: _ => finding.reason
  | [] => if stoppedTicks.isEmpty then "regular" else "stopped_stretches"

def analyze (clock : Text) (period first : Nat) (transitions : Transitions) :
    Option ClockAnalysis := do
  let rises := risingTicks transitions
  let offGrid := offGridRise period first rises
  let unknown := unknownAfter transitions rises
  let unusable := clock.isEmpty || decide (rises.length < 2) || period == 0
  let offGridFinding ← offGridFindings rises offGrid
  let findings := edgeFindings unusable rises ++ offGridFinding ++ unknownFindings unknown
  let stoppedTicks ← regularStretches period (regularEnd offGrid unknown) rises
  let firstOffGridCycle ← offGridCycle first period offGrid
  some {
    verdict := {
      status := clockStatus unusable offGrid unknown
      reason := clockReason findings stoppedTicks
      clock := clock
      firstOffGridTick := offGrid
      firstOffGridCycle := firstOffGridCycle
      findings := findings
      stopped := { stretches := 0, totalCycles := 0, longest := none } }
    stoppedTicks := stoppedTicks }

/-- The cycles of the stopped stretches. -/
def ClockAnalysis.ranges (analysis : ClockAnalysis) (base period : Nat) :
    Option (List (Nat × Nat)) :=
  if period = 0 then some []
  else (analysis.stoppedTicks.filterMap (cyclesOfStretch base period)).mapM fun cycles => do
    let fromCycle ← checkedTick cycles.1
    let toCycle ← checkedTick cycles.2
    some (fromCycle, toCycle)

end Booley.Waves
