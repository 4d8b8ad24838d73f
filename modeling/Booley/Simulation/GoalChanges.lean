import Booley.Goals.Thresholds
import Booley.Simulation.TestRunRows

/-!
# The Goal changes of one campaign

In Goal Mode a campaign on a candidate Target enters one change for each of the Target's Goals
whose frozen Test Runs it graded: the rows of these runs, and the Cycle Count or the coverage when
the campaign measured it.
-/
namespace Booley.Simulation

open Booley.Lib Booley.TestRuns Booley.Goals

/-! ## Goals and their Criteria -/

/-- The parameters of a Criterion that a campaign reads; its thresholds are the Cycle Count
ones. -/
structure CriterionParams where
  target : Option String
  targetSelector : Option String
  test : Option String
  thresholds : List (ThresholdParam × Rat)
  baselineTarget : Option String
  baselineRef : Option String
  metrics : List String

/-- The frozen Test Runs of a Goal; a Cycle Count Goal has at most one. -/
structure FrozenGoal extends GoalTestRuns where
  oneRun : kind = .cycleCount → runs.length ≤ 1

/-- What one campaign observed of a Goal's frozen Test Runs. -/
structure SimulationDetail where
  campaignId : String
  manifestSha256 : String
  factsSha256 : String
  aggregateGrade : String
  selectedTests : List String
  passedTests : List String
  failedTests : List String

inductive BaselineState where
  | notRequired | observed | mismatched | inapplicable
deriving DecidableEq, Repr

structure CycleDetail where
  selector : String
  identity : String
  test : Option String
  cycles : Option Nat
  baselineCycles : Option Nat
  baseline : BaselineState
  reason : Option String
  checks : List (ThresholdParam × Bool)

inductive ChangeEvidence where
  | simulation (detail : SimulationDetail)
  | cycle (detail : CycleDetail)
  | coverage (evidence : CoverageEvidence) (criterionMetric : Option String)

/-- A change that only enters outcomes is marked as such. -/
structure ChangeDetail where
  evidence : ChangeEvidence
  testRuns : List EvidenceRow
  outcomesOnly : Bool

def ChangeDetail.cycles (detail : ChangeDetail) : CycleEvidence :=
  match detail.evidence with
  | .cycle cycle => ⟨cycle.cycles, cycle.baselineCycles⟩
  | _ => ⟨none, none⟩

structure GoalChange where
  key : String
  met : Bool
  detail : ChangeDetail

inductive AcceptanceError where
  | integrity (error : IntegrityError)
  | coverage (error : CoverageError)

def criterionMatchesTarget (params : CriterionParams) (identity selector : String) : Bool :=
  match params.targetSelector with
  | some expected => params.target == some identity && expected == selector
  | none => params.target == some identity || params.target == some selector

section Changes

variable [Digests] (floats : FloatArithmetic) (outcome : CampaignOutcome)
  (shadow : Dict String CriterionParams)

/-- Set a declared Criterion: thresholds that fail override the verdict. -/
def setCriterion (params : CriterionParams) (key : String) (met : Bool) (detail : ChangeDetail) :
    GoalChange :=
  ⟨key, met && params.thresholds.all fun item =>
    evaluateCycleThreshold floats item.1 item.2 detail.cycles, detail⟩

/-- The row of each of the facts that has one, in order. -/
def rowsOf (rows : List EvidenceRow) (facts : List ObservationFact) : List EvidenceRow :=
  facts.filterMap fun fact => rows.find? fun row => row.name == some fact.testRun

/-! ## Cycle Counts -/

def candidateObservations : List ObservationFact :=
  outcome.facts.filter fun fact => fact.role == "candidate" &&
    fact.revision == outcome.manifest.target.revision && fact.target == outcome.manifest.target

def unobservedInfrastructure (observation : ResultObservation) : Bool :=
  observation.failureClass == some .infrastructure && observation.functional == .notObserved

def healthyCycles (observation : ResultObservation) : Option Nat :=
  if observation.execution = .completed ∧ observation.functional = .pass ∧
      observation.assertions = .clean then observation.cycleCount
  else none

def namesBaselineTarget (params : CriterionParams) (target : TargetDocument) : Bool :=
  match params.baselineTarget with
  | some baseline => target.selector == baseline
  | none => criterionMatchesTarget params target.identity target.selector

/-- The baseline observation that a relative Cycle Count is compared with: the one of the Test Run
that was observed. -/
def boundBaseline (params : CriterionParams) (current : ObservationFact) :
    Option PrerequisiteFact × BaselineState :=
  if params.thresholds.all fun item => !(describeThreshold item.1).relative then
    (none, .notRequired)
  else
    match outcome.prerequisites.find? fun item =>
      item.role == "cycle_count_baseline" && item.target.role == "cycle_count_baseline" &&
      namesBaselineTarget params item.target &&
      (params.baselineRef.isNone || item.target.revision == params.baselineRef) &&
      item.test == params.test && item.testRun == current.testRun &&
      item.testRunFingerprint == current.testRunFingerprint &&
      item.manifestOwner == item.campaignId && item.workItemId.isSome with
    | some item => (some item, .observed)
    | none => (none, .mismatched)

/-- Why no baseline ran, by Target selector and Test Run. -/
abbrev Refusals := String → String → Option String

variable (refusals : Refusals)

/-- Judge a Cycle Count from a candidate observation. Nothing when it was lost to
infrastructure: that says nothing about the Cycle Count. -/
def cycleChange (params : CriterionParams) (key : String) (current : ObservationFact)
    (rows : List EvidenceRow) : Option GoalChange :=
  if unobservedInfrastructure current.observation then
    none
  else
    let (item, bound) := boundBaseline outcome params current
    let cycles : CycleEvidence := ⟨healthyCycles current.observation, item.map (·.cycleCount)⟩
    let checks := params.thresholds.map fun item =>
      (item.1, evaluateCycleThreshold floats item.1 item.2 cycles)
    let refusal := if bound = .mismatched
      then refusals outcome.manifest.target.selector current.testRun else none
    some (setCriterion floats params key (cycles.current.isSome && checks.all (·.2))
      { evidence := .cycle
          { selector := outcome.manifest.target.selector
            identity := outcome.manifest.target.identity
            test := params.test
            cycles := cycles.current
            baselineCycles := cycles.baseline
            baseline := if refusal.isSome then .inapplicable else bound
            reason := refusal
            checks := checks }
        testRuns := rowsOf rows [current]
        outcomesOnly := false })

/-- Judge a Cycle Count Goal from the observation of its one frozen Test Run. -/
def goalCycleChange (params : CriterionParams) (key : String) (matched rows : List EvidenceRow) :
    Option GoalChange :=
  match matched.head? with
  | none => none
  | some row =>
    match (candidateObservations outcome).find? fun fact => some fact.testRun == row.name with
    | none => none
    | some current => cycleChange floats outcome refusals params key current rows

/-! ## Coverage -/

/-- The verdict of one coverage Criterion, and its metric when it is an atomic one. -/
def projectCoverageCriterion (params : CriterionParams) (evidence : CoverageEvidence)
    (atomic : Bool) : Except CoverageError (Bool × Option String) :=
  if atomic = false then
    .ok (evidence.status == "pass", none)
  else
    match params.metrics with
    | [metric] =>
      match evidence.verdicts.lookup metric with
      | none =>
        if evidence.status == "pass" || evidence.status == "fail" then
          .error (.omitsMetric metric)
        else
          .ok (false, some metric)
      | some verdict =>
        .ok (evidence.suiteMatches && !evidence.diagnosed && verdict == "pass", some metric)
    | _ => .error .atomicMetric

/-- The coverage Criteria of the Target, the direct one and those that match it. -/
def coverageKeys : List String :=
  shadow.keys.filter fun key => key == "coverage_" ++ outcome.manifest.target.name ||
    ("coverage_".toList.isPrefixOf key.toList && (shadow.lookup key).any fun params =>
      criterionMatchesTarget params outcome.manifest.target.identity
        outcome.manifest.target.selector)

def coverageChange (evidence : CoverageEvidence) (rows : List EvidenceRow) (key : String) :
    Except CoverageError (Option GoalChange) :=
  match shadow.lookup key with
  | none => .ok none
  | some params => do
    let (met, metric) ← projectCoverageCriterion params evidence
      (key != "coverage_" ++ outcome.manifest.target.name)
    .ok (some (setCriterion floats params key met
      { evidence := .coverage evidence metric
        testRuns := rowsOf rows outcome.facts
        outcomesOnly := false }))

def coverageChanges (rows : List EvidenceRow) : Except CoverageError (List GoalChange) :=
  match outcome.coverageReference with
  | none => .ok []
  | some resolved => do
    let evidence ← resolved
    let changes ← (coverageKeys outcome shadow).mapM (coverageChange floats outcome shadow
      evidence rows)
    .ok (changes.filterMap id)

def goalCoverageChange (key : String) (rows : List EvidenceRow) :
    Except CoverageError (List GoalChange) := do
  let changes ← coverageChanges floats outcome shadow rows
  .ok (changes.filter (·.key == key))

/-! ## Every Goal of the Target -/

/-- The rows that are runs of a Goal. -/
def matchedRows (goal : GoalTestRuns) (rows : List EvidenceRow) : List EvidenceRow :=
  rows.filter fun row => row.toTestRunRow.matchesOne goal.runs

def graded (rows : List EvidenceRow) : Bool := rows.any (·.toTestRunRow.graded)

def goalSimulationDetail (matched : List EvidenceRow) : SimulationDetail :=
  let names := matched.filterMap (·.name)
  let passed := (matched.filter (·.grade == some "pass")).filterMap (·.name)
  { campaignId := outcome.manifest.campaignId
    manifestSha256 := outcome.manifestSha256
    factsSha256 := outcome.factsSha256
    aggregateGrade := outcome.aggregateGrade
    selectedTests := names
    passedTests := passed
    failedTests := names.filter fun name => !passed.contains name }

/-- The change of a Goal whose metric this campaign measured. -/
def measuredChanges (goal : GoalTestRuns) (params : CriterionParams)
    (matched rows : List EvidenceRow) : Except CoverageError (List GoalChange) :=
  match goal.kind with
  | .simulation => .ok []
  | .cycleCount =>
    if goal.measuredBy (rows.map (·.toTestRunRow)) then
      .ok (goalCycleChange floats outcome refusals params goal.key matched rows).toList
    else
      .ok []
  | .coverage =>
    if goal.measuredBy (rows.map (·.toTestRunRow)) && outcome.complete then
      goalCoverageChange floats outcome shadow goal.key rows
    else
      .ok []

/-- A change that only carries the outcomes of the matched runs. -/
def outcomesChange (goal : GoalTestRuns) (params : CriterionParams) (matched : List EvidenceRow) :
    GoalChange :=
  setCriterion floats params goal.key (goal.ownVerdict (matched.map (·.toTestRunRow)))
    { evidence := .simulation (goalSimulationDetail outcome matched)
      testRuns := matched
      outcomesOnly := (goal.outcomesDetail (matched.map (·.toTestRunRow))).outcomesOnly }

def goalChange (rows : List EvidenceRow) (goal : GoalTestRuns) :
    Except CoverageError (List GoalChange) :=
  let matched := matchedRows goal rows
  match shadow.lookup goal.key with
  | none => .ok []
  | some params =>
    if graded matched = false then
      .ok []
    else do
      let measured ← measuredChanges floats outcome shadow refusals goal params matched rows
      if measured.isEmpty then
        .ok [outcomesChange floats outcome goal params matched]
      else
        .ok measured

/-- The Goals bound to the Target, known by its identity or its selector. -/
def ofTarget (frozen : List FrozenGoal) : List FrozenGoal :=
  frozen.filter fun goal => goal.target == outcome.manifest.target.identity ||
    goal.target == outcome.manifest.target.selector

/-- The changes of every Goal this campaign's Test Runs are evidence for. -/
def goalChanges (frozen : List FrozenGoal) : Except AcceptanceError (List GoalChange) :=
  if outcome.manifest.target.role ≠ "candidate" then
    .ok []
  else do
    let rows ← (evidenceTestRunRows outcome).mapError .integrity
    let changes ← ((ofTarget outcome frozen).mapM fun goal =>
      goalChange floats outcome shadow refusals rows goal.toGoalTestRuns).mapError .coverage
    .ok changes.flatten

end Changes

end Booley.Simulation
