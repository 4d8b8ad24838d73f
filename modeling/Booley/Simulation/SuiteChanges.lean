import Booley.Lib.Json
import Booley.Simulation.GoalChanges

/-!
# The simulation Criteria of one campaign

Outside Goal Mode a simulation Criterion names Tests. A complete candidate campaign is judged
against it when each Test it needs was run as one Test Run that was observed.
-/
namespace Booley.Simulation

open Booley.Lib Booley.TestRuns Booley.Goals

/-! ## Grades of a campaign -/

def StrictGrade.precedence : StrictGrade → Nat
  | .pass => 0
  | .inconclusive => 1
  | .fail => 2
  | .error => 3

/-- The grade of a result is the worst one of its observations. -/
def resultGrade (observations : List ResultObservation) : StrictGrade :=
  (observations.map (·.strictGrade)).foldl
    (fun worst grade => if worst.precedence < grade.precedence then grade else worst) .pass

def aggregateGradeOf (grades : List StrictGrade) (complete : Bool) : String :=
  if grades.contains .error then "error"
  else if grades.contains .fail then "fail"
  else if !complete || grades.contains .inconclusive then "inconclusive" else "pass"

/-- The registered Tests of a Target; without any, one unnamed invocation stands for them. -/
structure RequiredSuite where
  names : List String
  defaultInvocation : Bool
  distinct : names.Nodup
  exclusive : defaultInvocation = true → names = []

/-- A campaign outcome with its required suite, graded by its results. -/
structure SuiteOutcome [Digests] extends CampaignOutcome where
  suite : RequiredSuite
  gradedBy : aggregateGrade = aggregateGradeOf (collected.map (resultGrade ·.2)) complete

/-! ## The contract of a Criterion -/

/-- The value of `minimum_total`; what is not an integer asks for nothing that can be met. -/
inductive MinimumTotal where
  | absent
  | integer (n : Int)
  | other
deriving DecidableEq, Repr

/-- The parameters of a simulation Criterion; a parameter that is not given is null. -/
structure SuiteParams extends CriterionParams where
  testSelector : Json
  selector : Json
  requiredTests : Json
  minimumTotal : MinimumTotal

/-- Normalized Test requirements of one simulation Criterion. -/
structure SimulationCriterionContract where
  selector : String
  requiredTests : List String
  minimumTotal : Option Int

/-- A list all of whose items are texts. -/
def textList : Json → Option (List String)
  | .list items => items.mapM Json.text?
  | _ => none

def selectorOf (params : SuiteParams) : String :=
  let value := if params.testSelector.truthy then params.testSelector
    else if params.selector.truthy then params.selector else .text "all"
  match value.text? with
  | some name => if name = "" then "all" else name
  | none => "all"

/-- Resolve selector, required Tests and minimum evidence cardinality. -/
def resolveSimulationCriterionContract (params : SuiteParams) (registered selected : List String) :
    SimulationCriterionContract :=
  let required := match textList params.requiredTests with
    | some names => distinct names
    | none =>
      if selectorOf params = "all" ∧ registered.isEmpty = false then registered
      else if selectorOf params ≠ "all" then [selectorOf params] else selected
  { selector := selectorOf params
    requiredTests := required
    minimumTotal := match params.minimumTotal with
      | .absent => some required.length
      | .integer n => some n
      | .other => none }

section Changes

variable [Digests] (floats : FloatArithmetic) (outcome : SuiteOutcome)
  (criteria : Dict String SuiteParams)

/-! ## Observations by Test -/

def testName : Option String → String
  | none => "default"
  | some name => name

/-- Index an observation by its Test, and note a Test that was indexed before. -/
def indexTest (indexed : List (Option String × ObservationFact) × List (Option String))
    (fact : ObservationFact) : List (Option String × ObservationFact) × List (Option String) :=
  (setItem indexed.1 fact.observation.test fact,
    if (indexed.1.lookup fact.observation.test).isSome then
      fact.observation.test :: indexed.2 else indexed.2)

/-- Candidate observations by Test; a Test run as several Test Runs is left out. -/
def candidateSimulationObservations : List (Option String × ObservationFact) :=
  let indexed := (candidateObservations outcome.toCampaignOutcome).foldl indexTest ([], [])
  indexed.1.filter fun entry => !indexed.2.contains entry.1

/-- The observations by displayed name. -/
def selectedObservations (observations : List (Option String × ObservationFact)) :
    List (String × ObservationFact) :=
  observations.foldl (fun selected entry => setItem selected (testName entry.1) entry.2) []

def sortedNames (names : List String) : List String := names.mergeSort (fun a b => decide (a ≤ b))

def criterionObservations (contract : SimulationCriterionContract) (suite : RequiredSuite)
    (observations : List (Option String × ObservationFact))
    (selected : List (String × ObservationFact)) : Option (List ObservationFact) :=
  if contract.selector == "all" && suite.defaultInvocation &&
      (observations.length != 1 || (observations.lookup none).isNone) then
    none
  else if contract.requiredTests.all fun name => (selected.lookup name).isSome then
    some ((sortedNames (if contract.selector == "all" then selected.map (·.1)
      else contract.requiredTests)).filterMap fun name => selected.lookup name)
  else
    none

/-! ## The verdict -/

def observationPassed (observation : ResultObservation) : Bool :=
  observation.execution = .completed && observation.functional = .pass &&
    observation.assertions ≠ .dirty

/-- Whether the campaign alone is evidence for its whole required suite. -/
def acceptanceReady : Bool :=
  if !outcome.complete || outcome.aggregateGrade != "pass" then
    false
  else
    let passing := (outcome.facts.filter (observationPassed ·.observation)).map
      (·.observation.test)
    if outcome.suite.defaultInvocation then outcome.facts.length == 1 && !passing.isEmpty
    else outcome.suite.names.all fun name => passing.contains (some name)

def simulationCriterionMet (contract : SimulationCriterionContract)
    (observations : List ObservationFact) : Bool :=
  let minimumMet := match contract.minimumTotal with
    | some minimum => decide (minimum ≤ observations.length)
    | none => false
  if contract.selector == "all" then
    minimumMet && acceptanceReady outcome && outcome.aggregateGrade == "pass"
  else
    minimumMet && observations.all (observationPassed ·.observation)

def simulationDetail (observations : List ObservationFact) : SimulationDetail :=
  let selected := observations.map (testName ·.observation.test)
  let passed := (observations.filter (observationPassed ·.observation)).map
    (testName ·.observation.test)
  { campaignId := outcome.manifest.campaignId
    manifestSha256 := outcome.manifestSha256
    factsSha256 := outcome.factsSha256
    aggregateGrade := outcome.aggregateGrade
    selectedTests := selected
    passedTests := passed
    failedTests := selected.filter fun name => !passed.contains name }

/-! ## Every Criterion of the Target -/

/-- The simulation Criteria of the Target: the general one, its own, and those that match it. -/
def matchingSimulationKeys : List String :=
  criteria.keys.filter fun key => key == "sim_pass" ||
    key == "sim_pass_" ++ outcome.manifest.target.name ||
    ("sim_pass_".toList.isPrefixOf key.toList && (criteria.lookup key).any fun params =>
      criterionMatchesTarget params.toCriterionParams outcome.manifest.target.identity
        outcome.manifest.target.selector)

/-- The contract of a Criterion in this campaign: every registered Test for the selector
`all`. -/
def contractOf (params : SuiteParams) : SimulationCriterionContract :=
  let selected := selectedObservations (candidateSimulationObservations outcome)
  let contract := resolveSimulationCriterionContract params outcome.suite.names
    (selected.map (·.1))
  if contract.selector == "all" then
    { contract with
      requiredTests := if outcome.suite.defaultInvocation then ["default"]
        else outcome.suite.names }
  else
    contract

/-- What a Criterion is judged from; nothing when one of its Tests was lost. -/
def relevantObservations (params : SuiteParams) : Option (List ObservationFact) :=
  let observations := candidateSimulationObservations outcome
  match criterionObservations (contractOf outcome params) outcome.suite observations
    (selectedObservations observations) with
  | none => none
  | some relevant =>
    if relevant.any (unobservedInfrastructure ·.observation) then none else some relevant

def simulationChange (rows : List EvidenceRow) (key : String) : Option GoalChange :=
  match criteria.lookup key with
  | none => none
  | some params => (relevantObservations outcome params).map fun relevant =>
    setCriterion floats params.toCriterionParams key
      (simulationCriterionMet outcome (contractOf outcome params) relevant)
      { evidence := .simulation (simulationDetail outcome relevant)
        testRuns := rowsOf rows relevant
        outcomesOnly := false }

def simulationChanges (rows : List EvidenceRow) : List GoalChange :=
  if outcome.complete = false ∨ outcome.manifest.target.role ≠ "candidate" then []
  else (matchingSimulationKeys outcome criteria).filterMap
    (simulationChange floats outcome criteria rows)

end Changes

end Booley.Simulation
