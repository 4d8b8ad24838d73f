import Booley.Goals.Freshness
import Booley.Goals.Thresholds

/-!
# Threshold evaluation of a reported detail

The checks a Criterion makes of the detail a Flow reports: one for each of its parameters that
is a threshold. Details and parameters are JSON objects; a parameter without a threshold suffix
is passed over.
-/
namespace Booley.Criteria

open Booley.Lib Booley.Goals

/-! ## Texts of parameters -/

def removeSuffix (ending text : String) : String :=
  if hasSuffix ending text then String.ofList (text.toList.take (text.length - ending.length))
  else text

/-- The text before the first dot and the text after it. -/
def partitionDot (text : String) : String × String :=
  let before := text.toList.takeWhile (· ≠ '.')
  (String.ofList before, String.ofList (text.toList.drop (before.length + 1)))

/-- The text after the last dot. -/
def afterLastDot (text : String) : String :=
  String.ofList (text.toList.reverse.takeWhile (· ≠ '.')).reverse

/-- The Cycle Count thresholds by name. -/
def cycleCountParams : List (String × ThresholdParam) :=
  [("cycle_count_max", .cycleCountMax), ("cycle_count_min", .cycleCountMin),
    ("cycle_count_increase_at_least", .cycleCount .increase .atLeast .percent),
    ("cycle_count_increase_at_most", .cycleCount .increase .atMost .percent),
    ("cycle_count_reduce_at_least", .cycleCount .reduce .atLeast .percent),
    ("cycle_count_reduce_at_most", .cycleCount .reduce .atMost .percent),
    ("cycle_count_increase_at_least_cycles", .cycleCount .increase .atLeast .cycles),
    ("cycle_count_increase_at_most_cycles", .cycleCount .increase .atMost .cycles),
    ("cycle_count_reduce_at_least_cycles", .cycleCount .reduce .atLeast .cycles),
    ("cycle_count_reduce_at_most_cycles", .cycleCount .reduce .atMost .cycles)]

/-- The suffixes of the other thresholds, in the order they are tried. -/
def thresholdSuffixes : List (String × Flavour) :=
  [("_max", .max), ("_min", .min), ("_increase_at_most", .increaseAtMost),
    ("_reduce_at_least", .reduceAtLeast)]

/-- The suffix of a metric threshold. -/
def flavourOf (param : String) : Option (String × Flavour) :=
  thresholdSuffixes.find? fun suffix => hasSuffix suffix.1 param

/-- Whether the evaluator knows a parameter as a threshold. -/
def isThreshold (param : String) : Bool :=
  (cycleCountParams.lookup param).isSome || (flavourOf param).isSome

/-- Whether the evaluator looks at a parameter: it is neither private nor a Target or a Test. -/
def isGated (param : String) : Bool :=
  !hasPrefix "_" param && param != "target" && param != "test"

/-! ## Metrics -/

/-- One check as it is recorded with the detail. -/
structure Check where
  param : String
  passed : Bool
  skipped : Bool
deriving DecidableEq, Repr

def Check.toJson (check : Check) : Json :=
  .object [("param", .text check.param), ("pass", .flag check.passed),
    ("skipped", .flag check.skipped)]

/-- A threshold that the run cannot evaluate fails. -/
def unavailableCheck (param : String) : Check := ⟨param, false, true⟩

def synthMetrics : Json.Fields :=
  [("area", .text "area_um2"), ("area_um2", .text "area_um2"), ("area_kge", .text "area_kge"),
    ("cell_count", .text "cells"), ("wire_count", .text "wire_count"),
    ("critical_path_ps", .text "critical_path_ps"), ("fmax_mhz", .text "fmax_mhz")]

section Evaluators

variable (floats : FloatArithmetic)

/-- A reported value as a finite number. -/
def coerceMetric : Json → Option Rat
  | .number value => some value
  | .text value => floats.ofText value
  | _ => none

def fieldMetric (fields : Json.Fields) (key : String) : Option Rat :=
  (fields.get key).bind (coerceMetric floats)

/-- The name of a metric in the detail; an empty name is none. -/
def metricKey (metricMap : Json.Fields) (name : String) : Option String :=
  ((metricMap.get name).bind Json.text?).filter (· ≠ "")

/-- The value of a metric and its label; no label when the metric is unknown. -/
def resolveMetric (detail : Json.Fields) (name : String) (metricMap : Json.Fields) :
    Option Rat × Option String :=
  if name.toList.contains '.' then
    let (clock, metric) := partitionDot name
    match metricKey metricMap metric with
    | none => (none, none)
    | some key =>
      let entry := ((detail.get "per_clock").bind Json.fields?).bind
        fun clocks => (clocks.get clock).bind Json.fields?
      (entry.bind fun entry => fieldMetric floats entry key,
        some ("per_clock[" ++ clock ++ "]." ++ key))
  else
    match metricKey metricMap name with
    | none => (none, none)
    | some key =>
      match fieldMetric floats detail key with
      | some value => (some value, some key)
      | none =>
        if key ∈ clockTimingFields then
          let clocks := (((detail.get "per_clock").bind Json.fields?).getD []).filterMap
            fun clock => clock.2.fields?.map (fieldMetric floats)
          ((worstClock clocks).bind (· key), some key)
        else (none, some key)

def checkAbsoluteCap (param : String) (threshold : Rat) (detail metricMap : Json.Fields) : Check :=
  match resolveMetric floats detail (removeSuffix "_max" param) metricMap with
  | (some value, some _) => ⟨param, value ≤ threshold, false⟩
  | _ => unavailableCheck param

/-- The metric a floor is allowed for, whatever clock it is scoped to. -/
def minGateKey (name : String) : String :=
  if name.toList.contains '.' then afterLastDot name else name

def checkAbsoluteMin (param : String) (threshold : Rat) (detail metricMap : Json.Fields)
    (minAllowed : List String) : Check :=
  let name := removeSuffix "_min" param
  if !minAllowed.contains (minGateKey name) then unavailableCheck param
  else match resolveMetric floats detail name metricMap with
    | (some value, some _) => ⟨param, threshold ≤ value, false⟩
    | _ => unavailableCheck param

/-- Growth or reduction against the baseline, in percent of it. -/
def checkDelta (param name : String) (threshold : Rat) (detail baseline metricMap : Json.Fields)
    (increase : Bool) : Check :=
  match resolveMetric floats detail name metricMap,
      (resolveMetric floats baseline name metricMap).1 with
  | (some current, some _), some base =>
    if base = 0 then unavailableCheck param
    else if increase then
      ⟨param, (floats.percent current base base).atMost threshold, false⟩
    else ⟨param, (floats.percent base current base).atLeast threshold, false⟩
  | _, _ => unavailableCheck param

/-- The evidence a detail holds for thresholds: its metrics, the baseline's, the metric names and
the metrics that may have a floor. -/
structure ThresholdEvidence where
  evaluation : Json.Fields
  baseline : Json.Fields
  metricMap : Json.Fields
  minAllowed : List String

/-- Evaluate one threshold; nothing for a parameter that is none. -/
def checkSingleThreshold (param : String) (threshold : Rat) (evidence : ThresholdEvidence) :
    Option Check :=
  match flavourOf param with
  | some (_, .max) =>
    some (checkAbsoluteCap floats param threshold evidence.evaluation evidence.metricMap)
  | some (_, .min) =>
    some (checkAbsoluteMin floats param threshold evidence.evaluation evidence.metricMap
      evidence.minAllowed)
  | some (ending, .increaseAtMost) =>
    some (checkDelta floats param (removeSuffix ending param) threshold evidence.evaluation
      evidence.baseline evidence.metricMap true)
  | some (ending, .reduceAtLeast) =>
    some (checkDelta floats param (removeSuffix ending param) threshold evidence.evaluation
      evidence.baseline evidence.metricMap false)
  | none => none

def overlay (fields others : Json.Fields) : Json.Fields :=
  others.foldl (fun fields field => fields.set field.1 field.2) fields

def thresholdEvidence (detail : Json.Fields) : ThresholdEvidence :=
  let implementation := (detail.get "implementation").bind Json.fields?
  let metrics := implementation.bind fun fields => (fields.get "metrics").bind Json.fields?
  let comparison := implementation.bind fun fields => (fields.get "comparison").bind Json.fields?
  let canonical := comparison.bind fun fields => (fields.get "baseline").bind Json.fields?
  let canonicalMetrics := canonical.bind fun fields => (fields.get "metrics").bind Json.fields?
  { evaluation := match metrics with
      | some metrics => overlay detail metrics
      | none => detail
    baseline := canonicalMetrics.getD
      (((detail.get "baseline_metrics").bind Json.fields?).getD [])
    metricMap := ((detail.get "_metric_map").bind Json.fields?).getD synthMetrics
    minAllowed := ((detail.get "_min_allowed").map Json.texts).getD ["fmax_mhz"] }

/-- A count that is a whole number and not negative. -/
def cycleCount : Json → Option Nat
  | .number value => if value.den = 1 ∧ 0 ≤ value then some value.num.toNat else none
  | _ => none

/-- The check of one stored parameter. A stored threshold is a number, so a parameter of another
kind is none. -/
def evaluateParam (detail : Json.Fields) (evidence : ThresholdEvidence) (param : String) :
    Json → Option Check
  | .number threshold =>
    if !isGated param then none
    else match cycleCountParams.lookup param with
      | some cycle =>
        some ⟨param, evaluateCycleThreshold floats cycle threshold
          ⟨(evidence.evaluation.get "cycles").bind cycleCount,
            (detail.get "baseline_cycles").bind cycleCount⟩, false⟩
      | none => checkSingleThreshold floats param threshold evidence
  | _ => none

def evaluateMetricParams (params detail : Json.Fields) : List Check :=
  params.filterMap fun param => evaluateParam floats detail (thresholdEvidence detail) param.1
    param.2

end Evaluators

/-! ## The parameters of a declared Criterion -/

/-- Parameters as templates admit them: a threshold is a number. -/
structure CriterionParams where
  fields : Json.Fields
  numeric : ∀ param ∈ fields, isGated param.1 = true → isThreshold param.1 = true →
    ∃ bound, param.2 = .number bound

variable {floats : FloatArithmetic} {params : CriterionParams} {detail : Json.Fields}
variable {param : String × Json}

section Shapes

variable {name : String} {threshold : Rat} {fields baseline metricMap : Json.Fields}

end Shapes

end Booley.Criteria
