import Booley.Lib.Dict
import Mathlib.Algebra.Order.Ring.Unbundled.Rat
import Mathlib.Tactic.Linarith

/-!
# Numeric thresholds of Criteria

What a threshold parameter bounds, how the Criterion evaluates it against measured values,
and which of two thresholds for one parameter is the stricter one. Floating point enters
only as the functions that compute a measured percentage and read a number.
-/
namespace Booley.Goals

open Booley.Lib

/-! ## Parameters -/

/-- The metrics a synthesis or FPGA Criterion may bound. -/
inductive Metric where
  | areaUm2 | areaKge | area | cellCount | wireCount | criticalPathPs | fmaxMhz
  | lutCount | ffCount | bramCount | dspCount
deriving DecidableEq, Repr

/-- The suffix of a metric threshold. -/
inductive Flavour where
  | max | min | increaseAtMost | reduceAtLeast
deriving DecidableEq, Repr

inductive CycleChange where
  | increase | reduce
deriving DecidableEq, Repr

inductive CycleSide where
  | atLeast | atMost
deriving DecidableEq, Repr

inductive ThresholdUnit where
  | cycles | percent | metric
deriving DecidableEq, Repr

inductive CycleUnit where
  | percent | cycles
deriving DecidableEq, Repr

/-- The public threshold parameters: a metric and its flavour, for one clock when
scoped to it, or one of the Cycle Count thresholds. -/
inductive ThresholdParam where
  | metric (clock : Option String) (metric : Metric) (flavour : Flavour)
  | cycleCountMax
  | cycleCountMin
  | cycleCount (change : CycleChange) (side : CycleSide) (unit : CycleUnit)
deriving DecidableEq, Repr

inductive ThresholdOperator where
  | le | ge
deriving DecidableEq, Repr

/-- Meaning of one threshold parameter. -/
structure ThresholdDescriptor where
  relative : Bool
  unit : ThresholdUnit
  operator : ThresholdOperator
deriving DecidableEq, Repr

def cycleOperator : CycleChange → CycleSide → ThresholdOperator
  | .increase, .atLeast => .ge
  | .increase, .atMost => .le
  | .reduce, .atLeast => .le
  | .reduce, .atMost => .ge

def describeThreshold : ThresholdParam → ThresholdDescriptor
  | .metric _ _ .max => ⟨false, .metric, .le⟩
  | .metric _ _ .min => ⟨false, .metric, .ge⟩
  | .metric _ _ .increaseAtMost => ⟨true, .percent, .le⟩
  | .metric _ _ .reduceAtLeast => ⟨true, .percent, .le⟩
  | .cycleCountMax => ⟨false, .cycles, .le⟩
  | .cycleCountMin => ⟨false, .cycles, .ge⟩
  | .cycleCount change side .percent => ⟨true, .percent, cycleOperator change side⟩
  | .cycleCount change side .cycles => ⟨true, .cycles, cycleOperator change side⟩

/-- Whether a parameter is a `reduce_` threshold, which bounds the negated change. -/
def reduces : ThresholdParam → Bool
  | .metric _ _ .reduceAtLeast => true
  | .cycleCount .reduce _ _ => true
  | _ => false

/-- Whether `candidate` is stricter than `current` for a parameter, in the direction its
Criterion evaluates. -/
def stricterThreshold (param : ThresholdParam) (candidate current : Rat) : Bool :=
  let sign : Rat := if reduces param then -1 else 1
  match (describeThreshold param).operator with
  | .le => sign * candidate < sign * current
  | .ge => sign * candidate > sign * current

/-- Thresholds of one parameter on a scale where the stricter one is higher. -/
def strictness (param : ThresholdParam) (threshold : Rat) : Rat :=
  let sign : Rat := if reduces param then -1 else 1
  match (describeThreshold param).operator with
  | .le => -(sign * threshold)
  | .ge => sign * threshold

theorem stricterThreshold_iff {param : ThresholdParam} {candidate current : Rat} :
    stricterThreshold param candidate current = true ↔
      strictness param current < strictness param candidate := by
  unfold stricterThreshold strictness
  cases (describeThreshold param).operator with
  | le => simp only [decide_eq_true_eq, neg_lt_neg_iff]
  | ge => simp only [decide_eq_true_eq, gt_iff_lt]

theorem strictness_injective (param : ThresholdParam) {threshold other : Rat}
    (h : strictness param threshold = strictness param other) : threshold = other := by
  unfold strictness at h
  cases hreduces : reduces param with
  | true =>
    cases hoperator : (describeThreshold param).operator with
    | le => simpa [hreduces, hoperator] using h
    | ge => simpa [hreduces, hoperator] using h
  | false =>
    cases hoperator : (describeThreshold param).operator with
    | le => simpa [hreduces, hoperator] using h
    | ge => simpa [hreduces, hoperator] using h

/-! ## Measured values -/

/-- A measured value as a comparison reads it: a float may also be infinite or no number. -/
inductive Measured where
  | number (value : Rat)
  | infinite (negative : Bool)
  | undefined
deriving DecidableEq

namespace Measured

/-- `measured <= bound` -/
def atMost : Measured → Rat → Bool
  | number value, bound => value ≤ bound
  | infinite negative, _ => negative
  | undefined, _ => false

/-- `measured >= bound` -/
def atLeast : Measured → Rat → Bool
  | number value, bound => bound ≤ value
  | infinite negative, _ => !negative
  | undefined, _ => false

theorem atMost_mono {measured : Measured} {bound weaker : Rat} (hle : bound ≤ weaker)
    (h : measured.atMost bound = true) : measured.atMost weaker = true := by
  cases measured with
  | number value =>
    have hvalue : value ≤ bound := by simpa [atMost] using h
    simpa [atMost] using hvalue.trans hle
  | infinite negative => simpa [atMost] using h
  | undefined => simp [atMost] at h

theorem atLeast_mono {measured : Measured} {bound weaker : Rat} (hle : weaker ≤ bound)
    (h : measured.atLeast bound = true) : measured.atLeast weaker = true := by
  cases measured with
  | number value =>
    have hvalue : bound ≤ value := by simpa [atLeast] using h
    simpa [atLeast] using hle.trans hvalue
  | infinite negative => simpa [atLeast] using h
  | undefined => simp [atLeast] at h

end Measured

/-- The floating-point steps of the evaluators: a difference in percent of `base`, a Cycle
Count change in percent, and the finite number a text stands for. -/
structure FloatArithmetic where
  percent (value less base : Rat) : Measured
  cyclePercent (delta : Int) (base : Nat) : Measured
  ofText : String → Option Rat

/-- `measured <= bound` or `measured >= bound` -/
def thresholdPasses (measured : Measured) (bound : Rat) : ThresholdOperator → Bool
  | .le => measured.atMost bound
  | .ge => measured.atLeast bound

/-! ## Cycle Counts -/

/-- The counted cycles of a Test Run and of its baseline; a missing or invalid count is
`none`. -/
structure CycleEvidence where
  current : Option Nat
  baseline : Option Nat

/-- What a relative Cycle Count threshold compares: the difference or its percentage. -/
def measuredCycles (floats : FloatArithmetic) (unit : CycleUnit) (current baseline : Nat) :
    Option Measured :=
  let delta : Int := current - baseline
  match unit with
  | .cycles => some (.number delta)
  | .percent => if baseline = 0 then none else some (floats.cyclePercent delta baseline)

/-- Whether one Cycle Count threshold passes; missing evidence fails it. -/
def evaluateCycleThreshold (floats : FloatArithmetic) (param : ThresholdParam) (threshold : Rat)
    (cycles : CycleEvidence) : Bool :=
  match param, cycles.current with
  | .metric _ _ _, _ => false
  | _, none => false
  | .cycleCountMax, some current =>
    thresholdPasses (.number current) threshold (describeThreshold param).operator
  | .cycleCountMin, some current =>
    thresholdPasses (.number current) threshold (describeThreshold param).operator
  | .cycleCount _ _ unit, some current =>
    match cycles.baseline.bind (measuredCycles floats unit current) with
    | none => false
    | some measured =>
      let bound := if reduces param then -threshold else threshold
      thresholdPasses measured bound (describeThreshold param).operator

/-! ## Implementation metrics -/

/-- The numeric metrics of an implementation report; a value that is no finite number is
`none`. -/
structure Metrics where
  scalar : String → Option Rat
  perClock : Option (List (String × (String → Option Rat)))

/-- The timing metrics a clock reports. -/
def clockTimingFields : List String :=
  ["period_ns", "wns_ns", "whs_ns", "critical_path_ps", "fmax_mhz"]

/-- The first of the clocks whose value is least, of those that have one. -/
def leastBy (value : (String → Option Rat) → Option Rat) :
    List (String → Option Rat) → Option (String → Option Rat)
  | [] => none
  | clock :: rest =>
    match value clock, leastBy value rest with
    | none, best => best
    | some _, none => some clock
    | some own, some best => if (value best).any (· < own) then some best else some clock

/-- The timing-worst clock: the least Fmax, else the longest path, else the least slack. -/
def worstClock (clocks : List (String → Option Rat)) : Option (String → Option Rat) :=
  (leastBy (· "fmax_mhz") clocks).or <|
    (leastBy (fun clock => (clock "critical_path_ps").map (-·)) clocks).or <|
      (leastBy (· "wns_ns") clocks).or clocks.head?

/-- The metric map of Flows that report none of their own. -/
def synthMetricMap : Metric → Option String
  | .area => some "area_um2"
  | .areaUm2 => some "area_um2"
  | .areaKge => some "area_kge"
  | .cellCount => some "cells"
  | .wireCount => some "wire_count"
  | .criticalPathPs => some "critical_path_ps"
  | .fmaxMhz => some "fmax_mhz"
  | _ => none

/-- The value of a metric, of one clock when the threshold names it. A timing metric without
a value for the whole design is read from the timing-worst clock. -/
def resolveMetric (metrics : Metrics) (clock : Option String) (metric : Metric)
    (metricMap : Metric → Option String) : Option Rat := do
  let key ← metricMap metric
  match clock with
  | some clock =>
    let entry ← (metrics.perClock.getD []).lookup clock
    entry key
  | none =>
    match metrics.scalar key with
    | some value => some value
    | none =>
      if key ∈ clockTimingFields then
        (worstClock ((metrics.perClock.getD []).map Prod.snd)).bind (· key)
      else none

/-- What a Flow reports of an implementation, with the metric names and floors it declares. -/
structure ImplementationEvidence where
  metrics : Metrics
  baseline : Metrics
  metricMap : Metric → Option String
  minAllowed : List Metric

/-- Growth or reduction against the baseline; a value that is missing fails. -/
def checkDelta (floats : FloatArithmetic) (clock : Option String) (metric : Metric)
    (threshold : Rat) (evidence : ImplementationEvidence) (increase : Bool) : Bool :=
  match resolveMetric evidence.baseline clock metric evidence.metricMap,
      resolveMetric evidence.metrics clock metric evidence.metricMap with
  | some base, some current =>
    if base = 0 then false
    else if increase then (floats.percent current base base).atMost threshold
    else (floats.percent base current base).atLeast threshold
  | _, _ => false

/-- Whether one metric threshold passes; a metric that is not available fails it. -/
def checkSingleThreshold (floats : FloatArithmetic) (param : ThresholdParam) (threshold : Rat)
    (evidence : ImplementationEvidence) : Bool :=
  match param with
  | .metric clock metric .max =>
    match resolveMetric evidence.metrics clock metric evidence.metricMap with
    | some value => value ≤ threshold
    | none => false
  | .metric clock metric .min =>
    match resolveMetric evidence.metrics clock metric evidence.metricMap with
    | some value => evidence.minAllowed.elem metric && threshold ≤ value
    | none => false
  | .metric clock metric .increaseAtMost => checkDelta floats clock metric threshold evidence true
  | .metric clock metric .reduceAtLeast => checkDelta floats clock metric threshold evidence false
  | _ => true

/-! ## A stricter threshold that passes -/

theorem thresholdPasses_mono {measured : Measured} {bound weaker : Rat}
    {operator : ThresholdOperator}
    (hle : match operator with | .le => bound ≤ weaker | .ge => weaker ≤ bound)
    (h : thresholdPasses measured bound operator = true) :
    thresholdPasses measured weaker operator = true := by
  cases operator with
  | le => exact Measured.atMost_mono hle h
  | ge => exact Measured.atLeast_mono hle h

/-- Whatever passes a Cycle Count threshold passes every weaker one. -/
theorem evaluateCycleThreshold_weaken {floats : FloatArithmetic} {param : ThresholdParam}
    {strict weak : Rat} {cycles : CycleEvidence}
    (hweak : strictness param weak ≤ strictness param strict)
    (h : evaluateCycleThreshold floats param strict cycles = true) :
    evaluateCycleThreshold floats param weak cycles = true := by
  cases hcurrent : cycles.current with
  | none => cases param <;> simp [evaluateCycleThreshold, hcurrent] at h
  | some current =>
    cases param with
    | metric clock metric flavour => simp [evaluateCycleThreshold] at h
    | cycleCountMax =>
      have hle : strict ≤ weak := by simpa [strictness, reduces, describeThreshold] using hweak
      simp only [evaluateCycleThreshold, hcurrent] at h ⊢
      exact thresholdPasses_mono hle h
    | cycleCountMin =>
      have hle : weak ≤ strict := by simpa [strictness, reduces, describeThreshold] using hweak
      simp only [evaluateCycleThreshold, hcurrent] at h ⊢
      exact thresholdPasses_mono hle h
    | cycleCount change side unit =>
      simp only [evaluateCycleThreshold, hcurrent] at h ⊢
      cases hmeasured : cycles.baseline.bind (measuredCycles floats unit current) with
      | none => simp [hmeasured] at h
      | some measured =>
        simp only [hmeasured] at h ⊢
        refine thresholdPasses_mono ?_ h
        cases unit <;> cases change <;> cases side <;>
          simpa [strictness, reduces, describeThreshold, cycleOperator] using hweak

/-- Whatever passes a metric threshold passes every weaker one. -/
theorem checkSingleThreshold_weaken {floats : FloatArithmetic} {param : ThresholdParam}
    {strict weak : Rat} {evidence : ImplementationEvidence}
    (hweak : strictness param weak ≤ strictness param strict)
    (h : checkSingleThreshold floats param strict evidence = true) :
    checkSingleThreshold floats param weak evidence = true := by
  cases param with
  | cycleCountMax => rfl
  | cycleCountMin => rfl
  | cycleCount change side unit => rfl
  | metric clock metric flavour =>
    cases flavour with
    | max =>
      have hle : strict ≤ weak := by simpa [strictness, reduces, describeThreshold] using hweak
      simp only [checkSingleThreshold] at h ⊢
      split at h
      · have hpass := of_decide_eq_true h
        exact decide_eq_true (hpass.trans hle)
      · simp at h
    | min =>
      have hle : weak ≤ strict := by simpa [strictness, reduces, describeThreshold] using hweak
      simp only [checkSingleThreshold] at h ⊢
      split at h
      · obtain ⟨hallowed, hpass⟩ := Bool.and_eq_true_iff.mp h
        have hpass' := of_decide_eq_true hpass
        exact Bool.and_eq_true_iff.mpr ⟨hallowed, decide_eq_true (hle.trans hpass')⟩
      · simp at h
    | increaseAtMost =>
      have hle : strict ≤ weak := by simpa [strictness, reduces, describeThreshold] using hweak
      simp only [checkSingleThreshold, checkDelta] at h ⊢
      split at h
      · rename_i base current hbase hcurrent
        by_cases hzero : base = 0
        · simp [hzero] at h
        · simp only [hzero, if_false, if_true] at h ⊢
          exact Measured.atMost_mono hle h
      · simp at h
    | reduceAtLeast =>
      have hle : weak ≤ strict := by simpa [strictness, reduces, describeThreshold] using hweak
      simp only [checkSingleThreshold, checkDelta] at h ⊢
      split at h
      · rename_i base current hbase hcurrent
        by_cases hzero : base = 0
        · simp [hzero] at h
        · simp only [hzero, if_false, Bool.false_eq_true] at h ⊢
          exact Measured.atLeast_mono hle h
      · simp at h

end Booley.Goals
