import Booley.Goals.NamedRuns
import Booley.Goals.Verdicts

/-!
# Evidence and the Goals it satisfies

What Flows measure of Targets, and whether a Goal is met by it: the outcomes of the Test Runs
it names, its thresholds, its floors, its mutants, or its review.
-/
namespace Booley.Goals

open Booley.Lib Booley.TestRuns

/-- What an implementation Flow reports of a Target. -/
structure ImplementationReport where
  passed : Bool
  metrics : Metrics
  metricMap : Metric → Option String
  minAllowed : List Metric

/-- A coverage campaign: whether it ran exactly the Test Runs of a selection, and the covered
and eligible points of each metric it collected. -/
structure CoverageReport where
  ran : Option (Multiset (TestIdentity × Nat)) → Bool
  rollup : CoverageMetric → Option (Nat × Nat)

/-- A mutation run: the size of its scope, its time limit, and the mutants it detected. -/
structure MutationReport where
  sourceLines : Nat
  timeoutSeconds : Nat
  detected : Nat

structure ReviewReport where
  completed : Bool
  openFindings : Nat

/-- All that is measured. What is known of a Target by its Test Runs is keyed by its identity,
what other Flows report by its name. -/
structure GoalEvidence where
  laterPlan : String → Option TargetTestPlan
  drawnSeeds : String → String → Option String → List Nat
  suiteRuns : String → List TestRun
  rows : String → List TestRunRow
  cycles : String → TestRun → CycleEvidence
  flowPassed : GoalFamily → String → Bool
  implementation : GoalFamily → String → ImplementationReport
  baselineMetrics : GoalFamily → String → String → Metrics
  coverage : String → CoverageReport
  mutation : String → MutationReport
  review : ReviewKind → Option String → Option String → List String → ReviewReport

namespace GoalEvidence

variable (names : Option Checkout) (evidence : GoalEvidence)

/-- The Test Runs a selector of a Target is frozen to. -/
def requiredRuns (target : String) (test : WrittenSelector) : Option (List TestRun) := do
  let plan ← planFor names evidence.laterPlan target test.selector
  match namedRuns plan (evidence.drawnSeeds (identityOf names target) test.selector.test)
      test.selector with
  | .ok found => found
  | .error _ => none

/-- Whether every run passed, and there is one. -/
def runsPassed [Digests] (target : String) (runs : List TestRun) : Bool :=
  !runs.isEmpty &&
    (outcomeDefect (foldTestRunOutcomes (evidence.rows (identityOf names target)) runs)).isNone

/-- The implementation evidence of a Target against the Target it is compared with. -/
def implementationOf (family : GoalFamily) (target baseline : String) : ImplementationEvidence :=
  let report := evidence.implementation family target
  ⟨report.metrics, evidence.baselineMetrics family target baseline, report.metricMap,
    report.minAllowed⟩

/-- A floor holds of a metric that has eligible points. -/
def floorMet (rollup : Option (Nat × Nat)) (floor : Rat) : Bool :=
  match rollup with
  | some (covered, eligible) =>
    eligible ≠ 0 && floor ≤ ((covered : Rat) * 100) / (eligible : Rat)
  | none => false

end GoalEvidence

/-! ## Mutants -/

/-- `round(sqrt(n))`; the root of a natural number never lies halfway. -/
def roundSqrt (n : Nat) : Nat :=
  let root := Nat.sqrt n
  if root * root + root < n then root + 1 else root

/-- The count of an `auto` run: by source size, within the time limit. -/
def autoCount (report : MutationReport) : Nat :=
  let lines := if report.sourceLines = 0 then 1 else report.sourceLines
  min (max 3 (min 25 (roundSqrt lines))) (max 3 (report.timeoutSeconds / 150))

/-- How many mutants a Goal creates. -/
def mutantCount (params : MutationParams) (report : MutationReport) : Nat :=
  if params.auto then autoCount report else params.total.getD 10

/-- Whether a mutation run passes; an omitted `min_detected` is the count, and a floor beyond
the count is refused. -/
def mutantsDetected (params : MutationParams) (report : MutationReport) : Bool :=
  let count := mutantCount params report
  let floor := params.minDetected.getD count
  0 < count && floor ≤ count && floor ≤ report.detected

/-! ## Satisfied Goals -/

/-- Whether every bound of a dictionary holds. -/
def allHold {κ ν : Type} (bounds : Dict κ ν) (holds : κ → ν → Bool) : Bool :=
  bounds.entries.all fun entry => holds entry.1 entry.2

/-- Whether evidence satisfies a Goal. -/
def GoalEvidence.satisfies [Digests] (floats : FloatArithmetic) (names : Option Checkout)
    (evidence : GoalEvidence) (goal : TranslatedGoal) : Bool :=
  match goal.params with
  | .wholeTarget =>
    if goal.family = .sim then
      evidence.runsPassed names goal.targetName
        (evidence.suiteRuns (identityOf names goal.targetName))
    else evidence.flowPassed goal.family goal.targetName
  | .test test =>
    (evidence.requiredRuns names goal.targetName test).any
      (evidence.runsPassed names goal.targetName)
  | .implementation thresholds baseline =>
    (evidence.implementation goal.family goal.targetName).passed &&
      allHold thresholds fun param threshold =>
        checkSingleThreshold floats param threshold
          (evidence.implementationOf goal.family goal.targetName
            (baseline.getD goal.targetName))
  | .cycleCount target test thresholds =>
    (evidence.requiredRuns names target test).any fun runs =>
      evidence.runsPassed names target runs && runs.all fun run =>
        allHold thresholds fun param threshold =>
          evaluateCycleThreshold floats param threshold
            (evidence.cycles (identityOf names target) run)
  | .coverage target metrics tests =>
    match coverageTestsKey names target tests with
    | .error _ => false
    | .ok key =>
      let report := evidence.coverage (identityOf names target)
      report.ran key && allHold metrics fun metric floor =>
        GoalEvidence.floorMet (report.rollup metric) floor
  | .mutation params => mutantsDetected params (evidence.mutation goal.targetName)
  | .review review verdict spec target paths =>
    let report := evidence.review review spec target paths
    report.completed && (verdict = .done || report.openFindings = 0)

/-! ## The evaluators, one bound at a time -/

/-- A threshold that reads no baseline does not depend on one. -/
theorem checkSingleThreshold_baseline {floats : FloatArithmetic} {param : ThresholdParam}
    (h : isRelativeQor param = false) (threshold : Rat) (evidence : ImplementationEvidence)
    (baseline : Metrics) :
    checkSingleThreshold floats param threshold { evidence with baseline := baseline } =
      checkSingleThreshold floats param threshold evidence := by
  cases param with
  | metric clock metric flavour =>
    cases flavour with
    | max => rfl
    | min => rfl
    | increaseAtMost => simp [isRelativeQor] at h
    | reduceAtLeast => simp [isRelativeQor] at h
  | cycleCountMax => rfl
  | cycleCountMin => rfl
  | cycleCount change side unit => rfl

theorem floorMet_weaken {rollup : Option (Nat × Nat)} {strict weak : Rat} (hle : weak ≤ strict)
    (h : GoalEvidence.floorMet rollup strict = true) : GoalEvidence.floorMet rollup weak = true := by
  cases rollup with
  | none => cases h
  | some points =>
    simp only [GoalEvidence.floorMet, Bool.and_eq_true, decide_eq_true_eq] at h ⊢
    exact ⟨h.1, hle.trans h.2⟩

/-- A count is at most 25 when the size of the sources decides it. -/
theorem autoCount_le (report : MutationReport) : autoCount report ≤ 25 := by
  apply (Nat.min_le_left _ _).trans
  exact max_le (by decide) (Nat.min_le_left _ _)

theorem mutantsDetected_iff {params : MutationParams} {report : MutationReport} :
    mutantsDetected params report = true ↔
      0 < mutantCount params report ∧
      params.minDetected.getD (mutantCount params report) ≤ mutantCount params report ∧
      params.minDetected.getD (mutantCount params report) ≤ report.detected := by
  simp [mutantsDetected, and_assoc]

theorem runsPassed_iff_of_evidence [Digests] {names : Option Checkout} {evidence : GoalEvidence}
    {target : String} {runs : List TestRun} :
    evidence.runsPassed names target runs = true ↔
      runs ≠ [] ∧ ∀ run ∈ runs,
        HasGrade (evidence.rows (identityOf names target)) (runIdentity run) "pass" ∧
        ¬ HasGrade (evidence.rows (identityOf names target)) (runIdentity run) "fail" := by
  simp [GoalEvidence.runsPassed, outcomeDefect_fold_eq_none]

theorem allHold_iff {κ ν : Type} [DecidableEq κ] {bounds : Dict κ ν} {holds : κ → ν → Bool} :
    allHold bounds holds = true ↔
      ∀ name value, bounds.lookup name = some value → holds name value = true := by
  unfold allHold
  rw [List.all_eq_true]
  constructor
  · intro h name value hvalue
    exact h ⟨name, value⟩ (Dict.lookup_eq_some_iff.mp hvalue)
  · rintro h ⟨name, value⟩ hentry
    exact h name value (Dict.lookup_eq_some_iff.mpr hentry)

end Booley.Goals
