import Booley.Goals.GoalArgs
import Booley.Lib.Json
import Mathlib.Data.List.Sort

/-!
# Coverage Campaigns

One normalized coverage record for one Target invocation, and what the Campaign reader derives
again from its points when it decodes a stored one: the rollups, the metric rows of a scored
evaluation, and the verdict they give. A number of a document is the decimal it is written as.
-/
namespace Booley.Coverage

open Booley.Lib Booley.Lib.Json Booley.Goals

/-! ## Metrics and numbers -/

/-- The metrics scored in V1, in report order. -/
def scoredMetrics : List CoverageMetric := [.line, .branch, .expression, .toggle, .coverProperty]

/-- The class of native record a scored metric is measured by. -/
def metricText : CoverageMetric → String
  | .line => "line"
  | .branch => "branch"
  | .expression => "expression"
  | .toggle => "toggle"
  | .coverProperty => "cover_property"

def metricOrder : CoverageMetric → Nat
  | .line => 0
  | .branch => 1
  | .expression => 2
  | .toggle => 3
  | .coverProperty => 4

def metricSemantics : CoverageMetric → String
  | .line => "One Verilator basic-block point; covered when its count is greater than zero."
  | .branch => "One branch outcome; each outcome is a separate point covered when count is " ++
      "greater than zero."
  | .expression => "One collector-reported expression outcome; each outcome is a separate point " ++
      "covered when count is greater than zero."
  | .toggle => "One direction for one signal bit; 0_to_1 and 1_to_0 are separate points."
  | .coverProperty => "One user-authored cover-property point; covered when count is greater " ++
      "than zero."

/-- What is used of floating-point numbers, each of them by the shortest decimal that reads back
as it. -/
structure Floats where
  /-- The decimal of the float nearest to a number. -/
  shortest : Rat → Rat
  /-- The decimal of a quotient of whole numbers rounded to two places. -/
  rounded : Nat → Nat → Rat
  reads_back : ∀ number, shortest (shortest number) = shortest number

/-! ## The record -/

/-- The approval that waives a point. -/
structure WaiverReference where
  reason : String
  waiverId : String
  waiverFile : String
  waiverFingerprint : String
  provenance : Fields
deriving DecidableEq

inductive Disposition where
  | eligible
  | waived (reference : WaiverReference)
  | unscored
deriving DecidableEq

def Disposition.isEligible : Disposition → Bool
  | .eligible => true
  | _ => false

def Disposition.isWaived : Disposition → Bool
  | .waived _ => true
  | _ => false

/-- A point's metric, which need not be a scored one, and the source its location names. -/
structure CoveragePointIdentity where
  metric : String
  source : Option String
deriving DecidableEq

/-- One normalized observation with its hits in each run. -/
structure CoveragePoint where
  id : String
  identity : CoveragePointIdentity
  hitsByRun : List (String × Nat)
  disposition : Disposition
deriving DecidableEq

/-- Stored summary of the points of one metric. -/
structure CoverageRollup where
  metric : String
  semantics : String
  totalPoints : Nat
  eligiblePoints : Nat
  coveredPoints : Nat
  waivedPoints : Nat
  percent : Option Rat
deriving DecidableEq

inductive CapabilityStatus where
  | reported | absent | unsupported
deriving DecidableEq

structure CoverageCapability where
  recordClass : String
  status : CapabilityStatus
  collection : Option String
  scoring : Option String
deriving DecidableEq

inductive NormalizationStatus where
  | complete | completeWithUnknownRecords | incompatible
  | other (text : String)
deriving DecidableEq

inductive CollectionStatus where
  | complete | collectorError | incomplete | incompatible
deriving DecidableEq

inductive MetricVerdict where
  | pass | fail
deriving DecidableEq

/-- One row of a scored evaluation. -/
structure MetricResult where
  metric : String
  totalPoints : Nat
  eligiblePoints : Nat
  coveredPoints : Nat
  waivedPoints : Nat
  actualNumerator : Nat
  actualDenominator : Nat
  actualPercent : Option Rat
  minimumPercent : Rat
  verdict : MetricVerdict
deriving DecidableEq

inductive EvaluationStatus where
  | pass | fail | blocked | notRequested
  | other (text : String)
deriving DecidableEq

structure Diagnostic where
  code : String
  pointer : String
  message : String
deriving DecidableEq

inductive SuiteStatus where
  | isMatch | mismatch
deriving DecidableEq

/-- How the required Tests compare with the selected ones, when they were compared. -/
inductive SuiteEvaluation where
  | notEvaluated
  | evaluated (status : SuiteStatus) (required selected : List String)
deriving DecidableEq

/-- A stored row is `none` when it is not an object of exactly the fields of a metric row. -/
structure CoverageEvaluation where
  status : EvaluationStatus
  criterionFingerprint : Option String
  approvedWaiverSetDigest : Option String
  suite : SuiteEvaluation
  thresholds : Fields
  metrics : List (Option MetricResult)
  diagnostics : List Diagnostic
deriving DecidableEq

/-- One normalized coverage record for one Target invocation. -/
structure CoverageCampaign where
  target : String
  capabilities : List CoverageCapability
  declaredTests : List String
  selectedTests : List String
  normalization : NormalizationStatus
  points : List CoveragePoint
  rollups : List CoverageRollup
  collection : CollectionStatus
  evaluation : CoverageEvaluation
deriving DecidableEq

/-- The rollup of a metric, the last one where several name it. -/
def rollupFor (rollups : List CoverageRollup) (metric : CoverageMetric) : Option CoverageRollup :=
  (rollups.filter (·.metric == metricText metric)).getLast?

/-! ## What the reader derives again -/

section Reader

variable (floats : Floats)

def calculateRollup (metric : CoverageMetric) (points : List CoveragePoint) :
    Option CoverageRollup :=
  let matching := points.filter (·.identity.metric == metricText metric)
  if matching.isEmpty then
    none
  else
    let eligible := matching.filter (·.disposition.isEligible)
    let waived := matching.filter (·.disposition.isWaived)
    let covered := eligible.filter fun point => decide (0 < (point.hitsByRun.map Prod.snd).sum)
    some
      { metric := metricText metric
        semantics := metricSemantics metric
        totalPoints := matching.length
        eligiblePoints := eligible.length
        coveredPoints := covered.length
        waivedPoints := waived.length
        percent := if eligible.isEmpty then none
          else some (floats.rounded (covered.length * 100) eligible.length) }

def calculateRollups (points : List CoveragePoint) : List CoverageRollup :=
  scoredMetrics.filterMap fun metric => calculateRollup floats metric points

/-- The fields of two rollups that differ, by name and in order. -/
def differingFields (actual expected : CoverageRollup) : List String :=
  ([("metric", actual.metric == expected.metric),
    ("semantics", actual.semantics == expected.semantics),
    ("total_points", actual.totalPoints == expected.totalPoints),
    ("eligible_points", actual.eligiblePoints == expected.eligiblePoints),
    ("covered_points", actual.coveredPoints == expected.coveredPoints),
    ("waived_points", actual.waivedPoints == expected.waivedPoints),
    ("percent", actual.percent == expected.percent)].filter fun field => !field.2).map Prod.fst

/-- The message for the first rows that differ; about all the rollups when they do not even name
the same metrics. -/
def rollupMismatchFinding (actual expected : List CoverageRollup) : Diagnostic :=
  let aggregate : Diagnostic := ⟨"COV_ROLLUP_MISMATCH", "/rollups",
    "Rollups do not match the deterministic derivation from points."⟩
  if actual.length ≠ expected.length then
    aggregate
  else
    let differing := (actual.zip expected).zipIdx.find? fun row => row.1.1 ≠ row.1.2
    match differing with
    | none => aggregate
    | some ((actualRow, expectedRow), index) =>
      match differingFields actualRow expectedRow with
      | [] => aggregate
      | field :: _ =>
        if field == "metric" then
          aggregate
        else
          ⟨"COV_ROLLUP_MISMATCH", "/rollups/" ++ toString index ++ "/" ++ field,
            "Stored rollup field " ++ field ++ " for metric " ++ expectedRow.metric ++
              " does not match the deterministic derivation from points."⟩

/-- What is wrong with the rollups of a stored Campaign. -/
def rollupFindings (document : CoverageCampaign) : List Diagnostic :=
  match document.collection with
  | .complete =>
    if document.rollups = calculateRollups floats document.points then
      []
    else
      [rollupMismatchFinding document.rollups (calculateRollups floats document.points)]
  | _ =>
    if document.rollups.isEmpty then
      []
    else
      [⟨"COV_INVALID_SCORING_ROLLUPS", "/rollups",
        "A non-complete Campaign must not publish scored rollups."⟩]

end Reader

/-- The row a stored threshold gives; none when it is no finite number or has no denominator. -/
def expectedRow (rollup : Option CoverageRollup) (metric : CoverageMetric) (threshold : Json) :
    Option MetricResult :=
  match rollup, threshold with
  | some rollup, .number minimum =>
    if rollup.eligiblePoints = 0 then
      none
    else
      some
        { metric := metricText metric
          totalPoints := rollup.totalPoints
          eligiblePoints := rollup.eligiblePoints
          coveredPoints := rollup.coveredPoints
          waivedPoints := rollup.waivedPoints
          actualNumerator := rollup.coveredPoints * 100
          actualDenominator := rollup.eligiblePoints
          actualPercent := rollup.percent
          minimumPercent := minimum
          verdict := if minimum ≤ ((rollup.coveredPoints * 100 : Nat) : Rat) / rollup.eligiblePoints
            then .pass else .fail }
  | _, _ => none

def expectedRows (document : CoverageCampaign) :
    List CoverageMetric → Option (List MetricResult)
  | [] => some []
  | metric :: rest =>
    match document.evaluation.thresholds.get (metricText metric) with
    | none => expectedRows document rest
    | some threshold =>
      match expectedRow (rollupFor document.rollups metric) metric threshold with
      | none => none
      | some row => (expectedRows document rest).map (row :: ·)

/-- The rows the stored thresholds and rollups give; none when they cannot be scored. -/
def expectedEvaluationMetrics (document : CoverageCampaign) : Option (List MetricResult) :=
  if document.evaluation.thresholds.all fun field => (scoredMetrics.map metricText).contains field.1
  then expectedRows document scoredMetrics
  else none

def expectedStatus : Option (List MetricResult) → EvaluationStatus
  | some (row :: rows) => if (row :: rows).all (·.verdict == .pass) then .pass else .fail
  | _ => .fail

/-- What is wrong with a stored evaluation. Only a scored one is derived again. -/
def validateEvaluation (document : CoverageCampaign) : List Diagnostic :=
  match document.evaluation.status with
  | .other _ => [⟨"COV_EVALUATION_STATUS_INVALID", "/evaluation/status",
      "Evaluation status is not a V1 verdict."⟩]
  | .blocked | .notRequested => []
  | status =>
    let expected := expectedEvaluationMetrics document
    (if document.collection = .complete then
      []
    else
      [⟨"COV_INCOMPLETE_EVALUATED", "/evaluation/status",
        "Pass or fail requires complete compatible collection evidence."⟩]) ++
    if some document.evaluation.metrics = expected.map (·.map some) ∧
        status = expectedStatus expected then
      []
    else
      [⟨"COV_EVALUATION_MISMATCH", "/evaluation",
        "Stored evaluation does not match the exact deterministic derivation."⟩]

/-- The reader's findings about what a Campaign derives from its points. -/
def derivationFindings (floats : Floats) (document : CoverageCampaign) : List Diagnostic :=
  rollupFindings floats document ++ validateEvaluation document

end Booley.Coverage
