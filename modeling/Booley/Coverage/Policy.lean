import Booley.Coverage.Campaign

/-!
# Coverage policy

Approved waivers are matched to one Campaign all or none, applied to its eligible points, and
the rollups derived again; a Coverage Criterion is then evaluated on them. What keeps the
evidence from being scored blocks the evaluation with its diagnostics.
-/
namespace Booley.Coverage

open Booley.Lib Booley.Lib.Json Booley.Goals

/-! ## Criteria and approved waivers -/

/-- One exact inclusive minimum for a scored V1 metric. -/
structure CoverageThreshold where
  metric : CoverageMetric
  minimumPercent : Rat
deriving DecidableEq

/-- One expanded Target-bound coverage policy; no Tests stand for the declared ones. -/
structure CoverageCriterion where
  target : String
  thresholds : List CoverageThreshold
  tests : Option (List String)

/-- One validated exact Target-and-point exclusion. -/
structure ApprovedWaiver where
  target : String
  pointId : String
  reason : String
  waiverId : String
  waiverFile : String
  waiverFingerprint : String
  provenance : Fields
  source : String

/-- Immutable project-wide approved waiver input. -/
structure ApprovedWaiverSet where
  configuration : Fields
  digest : String
  waivers : List ApprovedWaiver

/-- What a criterion's fingerprint is the digest of. -/
structure CriterionPayload where
  target : String
  metrics : Fields
  tests : List String
  waiverConfiguration : Fields
  approvedWaiverSetDigest : String

/-! ## Matching waivers -/

def ApprovedWaiver.reference (waiver : ApprovedWaiver) : WaiverReference :=
  ⟨waiver.reason, waiver.waiverId, waiver.waiverFile, waiver.waiverFingerprint,
    waiver.provenance⟩

def matchOne (waiver : ApprovedWaiver) (campaign : CoverageCampaign) :
    Except Diagnostic ApprovedWaiver :=
  let pointer := "/approved_waivers/" ++ waiver.waiverFile ++ "#" ++ waiver.waiverId
  match campaign.points.filter (·.id == waiver.pointId) with
  | [] => .error ⟨"COV_WAIVER_POINT_STALE", pointer, "Approval no longer matches a point."⟩
  | [point] =>
    if point.identity.source ≠ some waiver.source then
      .error ⟨"COV_WAIVER_POINT_SOURCE_MISMATCH", pointer,
        "Matched point belongs to a different RTL source."⟩
    else if point.disposition.isEligible = false then
      .error ⟨"COV_WAIVER_POINT_UNSCORABLE", pointer,
        "Only V1-scored eligible RTL points can be waived."⟩
    else
      .ok waiver
  | _ => .error ⟨"COV_WAIVER_MATCH_AMBIGUOUS", pointer, "Approval matches multiple points."⟩

/-- All applicable waivers, or findings and no waivers. -/
structure ApprovedWaiverMatch where
  waivers : List ApprovedWaiver
  findings : List Diagnostic

def finding? : Except Diagnostic ApprovedWaiver → Option Diagnostic
  | .error finding => some finding
  | .ok _ => none

def matchCampaign (waivers : List ApprovedWaiver) (campaign : CoverageCampaign) :
    ApprovedWaiverMatch :=
  if campaign.normalization = .complete ∨ campaign.normalization = .completeWithUnknownRecords then
    let applicable := waivers.filter (·.target == campaign.target)
    let resolved := applicable.map fun waiver => matchOne waiver campaign
    let findings := resolved.filterMap finding?
    if findings.isEmpty then
      ⟨resolved.filterMap Except.toOption, []⟩
    else
      ⟨[], findings⟩
  else
    ⟨[], []⟩

/-! ## Applying waivers -/

section Evaluation

variable (floats : Floats)

/-- The waiver of a point among those of the Campaign's Target; the last one when several
name it. -/
def waiverOf (campaign : CoverageCampaign) (waivers : List ApprovedWaiver)
    (point : CoveragePoint) : Option ApprovedWaiver :=
  (waivers.filter fun waiver => waiver.target == campaign.target &&
    waiver.pointId == point.id).getLast?

def waivePoint (campaign : CoverageCampaign) (waivers : List ApprovedWaiver)
    (point : CoveragePoint) : CoveragePoint :=
  match waiverOf campaign waivers point, point.disposition with
  | some waiver, .eligible => { point with disposition := .waived waiver.reference }
  | _, _ => point

def deriveRollup (points : List CoveragePoint) (rollup : CoverageRollup) : CoverageRollup :=
  let matching := points.filter (·.identity.metric == rollup.metric)
  let eligible := matching.filter (·.disposition.isEligible)
  let waived := matching.filter (·.disposition.isWaived)
  let covered := eligible.filter fun point => decide (0 < (point.hitsByRun.map Prod.snd).sum)
  { rollup with
    totalPoints := matching.length
    eligiblePoints := eligible.length
    coveredPoints := covered.length
    waivedPoints := waived.length
    percent := if eligible.isEmpty then none
      else some (floats.rounded (covered.length * 100) eligible.length) }

def applyWaivers (campaign : CoverageCampaign) (waivers : List ApprovedWaiver) :
    CoverageCampaign :=
  let points := campaign.points.map (waivePoint campaign waivers)
  { campaign with points := points, rollups := campaign.rollups.map (deriveRollup floats points) }

/-! ## Diagnostics -/

def metricAvailable (campaign : CoverageCampaign) (metric : CoverageMetric) : Bool :=
  campaign.capabilities.any fun capability =>
    capability.recordClass == metricText metric && capability.status == .reported &&
    capability.collection == some "supported" && capability.scoring == some "scored_v1"

def sortedTests (tests : List String) : List String := tests.insertionSort (· ≤ ·)

def sortedMetrics (metrics : List CoverageMetric) : List CoverageMetric :=
  metrics.insertionSort fun a b => metricOrder a ≤ metricOrder b

def CoverageCriterion.ordered (criterion : CoverageCriterion) : List CoverageThreshold :=
  criterion.thresholds.insertionSort fun a b => metricOrder a.metric ≤ metricOrder b.metric

def CoverageCriterion.requiredTests (criterion : CoverageCriterion)
    (campaign : CoverageCampaign) : List String :=
  criterion.tests.getD campaign.declaredTests

def targetSuiteDiagnostics (campaign : CoverageCampaign) (criterion : CoverageCriterion)
    (requiredTests : List String) : List Diagnostic :=
  (if criterion.target ≠ campaign.target then
    [⟨"COV_EVAL_TARGET_MISMATCH", "/target/identity",
      "Campaign and Coverage Criterion belong to different Targets."⟩]
  else
    []) ++
  if sortedTests requiredTests ≠ sortedTests campaign.selectedTests then
    [⟨"COV_EVAL_SUITE_MISMATCH", "/tests/selected",
      "Campaign selection does not match the Coverage Criterion suite."⟩]
  else
    []

def evidenceDiagnostics (campaign : CoverageCampaign) (criterion : CoverageCriterion)
    (requiredTests : List String) : List Diagnostic :=
  targetSuiteDiagnostics campaign criterion requiredTests ++
  (if campaign.collection ≠ .complete then
    [⟨"COV_EVAL_COLLECTION_INCOMPLETE", "/collection/status",
      "Coverage collection is not complete."⟩]
  else
    []) ++
  (if campaign.normalization = .incompatible then
    [⟨"COV_EVAL_NORMALIZATION_INCOMPATIBLE", "/normalization/status",
      "Coverage normalization is incompatible."⟩]
  else
    []) ++
  (sortedMetrics ((criterion.thresholds.map (·.metric)).filter fun metric =>
    !metricAvailable campaign metric)).map fun metric =>
      ⟨"COV_EVAL_METRIC_UNAVAILABLE", "/collector/capabilities",
        "Configured metric is unavailable for V1 scoring: " ++ metricText metric ++ "."⟩

def emptyDenominatorDiagnostics (campaign : CoverageCampaign) (criterion : CoverageCriterion) :
    List Diagnostic :=
  (sortedMetrics ((criterion.thresholds.map (·.metric)).filter fun metric =>
    match rollupFor campaign.rollups metric with
    | none => true
    | some rollup => rollup.eligiblePoints == 0)).map fun metric =>
      ⟨"COV_EVAL_EMPTY_DENOMINATOR", "/rollups",
        "Configured metric has no eligible points: " ++ metricText metric ++ "."⟩

/-! ## Evaluation -/

/-- A minimum as it is stored: a whole number exactly, another as a float. -/
def thresholdNumber (value : Rat) : Rat :=
  if value.den = 1 then value else floats.shortest value

def storedThresholds (criterion : CoverageCriterion) : Fields :=
  criterion.ordered.foldl (fun stored item => stored.set (metricText item.metric)
    (.number (thresholdNumber floats item.minimumPercent))) []

variable (sha256 : CriterionPayload → String)

def criterionFingerprint (criterion : CoverageCriterion) (requiredTests : List String)
    (waivers : ApprovedWaiverSet) : String :=
  sha256
    { target := criterion.target
      metrics := criterion.ordered.foldl (fun metrics item => metrics.set (metricText item.metric)
        (.object [("numerator", .number item.minimumPercent.num),
          ("denominator", .number item.minimumPercent.den)])) []
      tests := sortedTests requiredTests
      waiverConfiguration := waivers.configuration
      approvedWaiverSetDigest := waivers.digest }

def metricResult (rollup : CoverageRollup) (threshold : CoverageThreshold) : MetricResult :=
  { metric := metricText threshold.metric
    totalPoints := rollup.totalPoints
    eligiblePoints := rollup.eligiblePoints
    coveredPoints := rollup.coveredPoints
    waivedPoints := rollup.waivedPoints
    actualNumerator := rollup.coveredPoints * 100
    actualDenominator := rollup.eligiblePoints
    actualPercent := rollup.percent
    minimumPercent := thresholdNumber floats threshold.minimumPercent
    verdict := if threshold.minimumPercent ≤
        ((rollup.coveredPoints * 100 : Nat) : Rat) / rollup.eligiblePoints
      then .pass else .fail }

/-- A Campaign with no Criterion: waiver findings block, and nothing else is evaluated. -/
def ungatedCampaign (campaign : CoverageCampaign) (diagnostics : List Diagnostic) :
    CoverageCampaign :=
  { campaign with evaluation :=
    { status := if diagnostics.isEmpty then .notRequested else .blocked
      criterionFingerprint := none
      approvedWaiverSetDigest := none
      suite := .notEvaluated
      thresholds := []
      metrics := []
      diagnostics := diagnostics } }

def blockedCampaign (campaign : CoverageCampaign) (criterion : CoverageCriterion)
    (waivers : ApprovedWaiverSet) (requiredTests : List String) (diagnostics : List Diagnostic) :
    CoverageCampaign :=
  { campaign with evaluation :=
    { status := .blocked
      criterionFingerprint := some (criterionFingerprint sha256 criterion requiredTests waivers)
      approvedWaiverSetDigest := some waivers.digest
      suite := .evaluated
        (if sortedTests requiredTests ≠ sortedTests campaign.selectedTests
          then .mismatch else .isMatch)
        (sortedTests requiredTests) (sortedTests campaign.selectedTests)
      thresholds := storedThresholds floats criterion
      metrics := []
      diagnostics := diagnostics } }

def scoredRows (campaign : CoverageCampaign) (criterion : CoverageCriterion) :
    List MetricResult :=
  criterion.ordered.filterMap fun item =>
    (rollupFor campaign.rollups item.metric).map fun rollup => metricResult floats rollup item

/-- Scored only once every threshold has a rollup, so that no row is missing. -/
def scoredCampaign (campaign : CoverageCampaign) (criterion : CoverageCriterion)
    (waivers : ApprovedWaiverSet) (requiredTests : List String) : CoverageCampaign :=
  let results := scoredRows floats campaign criterion
  { campaign with evaluation :=
    { status := if results.all (·.verdict == .pass) then .pass else .fail
      criterionFingerprint := some (criterionFingerprint sha256 criterion requiredTests waivers)
      approvedWaiverSetDigest := some waivers.digest
      suite := .evaluated .isMatch (sortedTests requiredTests) (sortedTests campaign.selectedTests)
      thresholds := storedThresholds floats criterion
      metrics := results.map some
      diagnostics := [] } }

/-- What keeps a Campaign, its waivers applied, from being scored. -/
def diagnosticsOf (findings : List Diagnostic) (campaign : CoverageCampaign)
    (criterion : CoverageCriterion) : List Diagnostic :=
  findings ++ evidenceDiagnostics campaign criterion (criterion.requiredTests campaign) ++
  if campaign.collection = .complete ∧ campaign.normalization ≠ .incompatible then
    emptyDenominatorDiagnostics campaign criterion
  else
    []

/-- The Campaign with deterministic policy evidence. -/
def evaluateCoverageCampaign (campaign : CoverageCampaign) (criterion : Option CoverageCriterion)
    (approvedWaivers : ApprovedWaiverSet) : CoverageCampaign :=
  let waiverMatch := matchCampaign approvedWaivers.waivers campaign
  let applied := applyWaivers floats campaign waiverMatch.waivers
  match criterion with
  | none => ungatedCampaign applied waiverMatch.findings
  | some criterion =>
    let diagnostics := diagnosticsOf waiverMatch.findings applied criterion
    if diagnostics.isEmpty then
      scoredCampaign floats sha256 applied criterion approvedWaivers
        (criterion.requiredTests applied)
    else
      blockedCampaign floats sha256 applied criterion approvedWaivers
        (criterion.requiredTests applied) diagnostics

end Evaluation

end Booley.Coverage
