import Booley.TestRuns.Outcomes

/-!
# What one campaign observed

A simulator observation as the result codec accepts it, the two tables that grade it, and the
campaign facts: every observation of every terminal result, bound to the Test Run it observed.
-/
namespace Booley.Simulation

open Booley.Lib Booley.TestRuns

/-! ## Observations and grades -/

/-- How the execution of one observed Test Run ended. -/
inductive ExecutionObservation where
  | completed | timeout | crash | aborted | setupError | blockedByBuild | notRun
deriving DecidableEq, Repr

inductive FailureClass where
  | design | infrastructure
deriving DecidableEq, Repr

inductive FunctionalObservation where
  | pass | fail | inconclusive | notObserved
deriving DecidableEq, Repr

inductive AssertionObservation where
  | clean | dirty | notObserved
deriving DecidableEq, Repr

inductive StrictGrade where
  | pass | fail | inconclusive | error
deriving DecidableEq, Repr

/-- One observation of a result; no Test stands for the whole invocation. -/
structure ResultObservation where
  test : Option String
  execution : ExecutionObservation
  failureClass : Option FailureClass
  functional : FunctionalObservation
  assertions : AssertionObservation
  cycleCount : Option Nat
deriving DecidableEq, Repr

/-- The exhaustive Simulation Campaign grade table. -/
def gradeObservations (execution : ExecutionObservation) (failureClass : Option FailureClass)
    (functional : FunctionalObservation) (assertions : AssertionObservation) : StrictGrade :=
  if failureClass = some .infrastructure then
    .error
  else
    match execution with
    | .timeout | .crash | .aborted | .setupError | .blockedByBuild => .fail
    | .completed =>
      if functional = .fail ∨ assertions = .dirty then .fail
      else if functional = .pass then .pass
      else .inconclusive
    | .notRun => .inconclusive

/-- One word for how a Test Run ended. -/
def testRunGrade (passed infrastructure inconclusive : Bool) : String :=
  if passed then "pass"
  else if infrastructure then "error"
  else if inconclusive then "inconclusive" else "fail"

namespace ResultObservation

variable (observation : ResultObservation)

def strictGrade : StrictGrade :=
  gradeObservations observation.execution observation.failureClass observation.functional
    observation.assertions

/-- The grade of a campaign observation in report rows. -/
def grade : String :=
  testRunGrade
    (observation.execution = .completed && observation.functional = .pass &&
      observation.assertions ≠ .dirty)
    (observation.failureClass = some .infrastructure)
    (observation.functional = .inconclusive)

/-- What the codec asks of an observation beyond the values of its fields. -/
def valid : Bool :=
  (observation.cycleCount.isNone || observation.execution = .completed) &&
  (match observation.execution with
  | .setupError | .blockedByBuild | .notRun =>
    observation.failureClass.isSome && observation.functional = .notObserved &&
      observation.assertions = .notObserved
  | .aborted =>
    (match observation.failureClass with
    | none => false
    | some .infrastructure => observation.functional = .notObserved
    | some .design => observation.functional = .fail) &&
      observation.assertions = .notObserved
  | _ => true)

/-- The kinds of observation that the two tables grade differently: an infrastructure failure
that passed, an inconclusive run whose assertions fired or that did not end, a completed one whose
verdict was not observed, and one that was not run. -/
def misgraded : Bool :=
  if observation.failureClass = some .infrastructure then
    observation.execution = .completed && observation.functional = .pass &&
      observation.assertions ≠ .dirty
  else
    match observation.execution with
    | .completed =>
      observation.functional = .inconclusive && observation.assertions = .dirty ||
        observation.functional = .notObserved && observation.assertions ≠ .dirty
    | .notRun => observation.functional ≠ .inconclusive
    | _ => observation.functional = .inconclusive

/-- The tables agree on a pass, and on a failure, exactly outside these kinds. -/
theorem misgraded_eq_false_iff : observation.misgraded = false ↔
    (observation.grade = "pass" ↔ observation.strictGrade = .pass) ∧
      (observation.grade = "fail" ↔ observation.strictGrade = .fail) := by
  obtain ⟨test, execution, failureClass, functional, assertions, cycleCount⟩ := observation
  cases failureClass with
  | none =>
    cases execution <;> cases functional <;> cases assertions <;>
      simp [misgraded, grade, strictGrade, testRunGrade, gradeObservations]
  | some failure =>
    cases failure <;> cases execution <;> cases functional <;> cases assertions <;>
      simp [misgraded, grade, strictGrade, testRunGrade, gradeObservations]

end ResultObservation

/-! ## Work items -/

/-- The Target one work item runs on. -/
structure TargetDocument where
  vlnv : String
  name : String
  selector : String
  projectIdentity : String
  revision : Option String
  role : String
  displayName : String
deriving DecidableEq, Repr

def TargetDocument.identity (target : TargetDocument) : String :=
  target.vlnv ++ "#" ++ target.name

/-- One unit of work of a campaign and the Test Runs it executes, uniquely named. -/
structure WorkItem where
  workItemId : String
  role : String
  revision : Option String
  target : TargetDocument
  testRuns : List TestRun

structure SimulationCampaignManifest where
  campaignId : String
  target : TargetDocument
  workItems : List WorkItem
  unique : (workItems.map (·.workItemId)).Nodup

/-- Why the campaign's evidence is refused. -/
inductive IntegrityError where
  | unbound (workItemId : String)
  | notTheManifest
  | unrecorded (testRun : String)
deriving DecidableEq, Repr

/-! ## Binding observations to Test Runs -/

/-- The Test Run of a Test that an unfiltered batch discovered under `unnamed`. -/
def discoveredTestRun (test : String) (unnamed : TestRun) : TestRun :=
  match buildTestRun (some test) none unnamed.seed [] unnamed.env with
  | .ok run => run
  | .error _ => unnamed

/-- The unnamed invocation a work item consists of, if it does. -/
def WorkItem.unnamed (item : WorkItem) : Option TestRun :=
  match item.testRuns with
  | [run] => if run.test = none then some run else none
  | _ => none

/-- The Test Run of each observation: the n-th observation of a Test is the n-th Test Run of that
Test. `taken` holds the Tests of the observations before. -/
def bindTestRuns (item : WorkItem) (taken : List (Option String)) :
    List ResultObservation → Except IntegrityError (List TestRun)
  | [] => .ok []
  | observation :: rest =>
    match item.unnamed, observation.test with
    | some unnamed, some test => do
      let bound ← bindTestRuns item taken rest
      .ok (discoveredTestRun test unnamed :: bound)
    | _, test =>
      let matching := item.testRuns.filter fun run => test.isNone || run.test = test
      match matching[taken.count test]? with
      | none => .error (.unbound item.workItemId)
      | some run => do
        let bound ← bindTestRuns item (test :: taken) rest
        .ok (run :: bound)

def observationTestRuns (item : WorkItem) (results : List ResultObservation) :
    Except IntegrityError (List TestRun) :=
  bindTestRuns item [] results

/-- One observation as the acceptance facts state it. -/
structure ObservationFact where
  workItemId : String
  role : String
  revision : Option String
  target : TargetDocument
  observation : ResultObservation
  testRun : String
  testRunFingerprint : String

section Facts

variable [Digests]

def observationFacts (item : WorkItem) (results : List ResultObservation) :
    Except IntegrityError (List ObservationFact) := do
  let bound ← observationTestRuns item results
  .ok ((results.zip bound).map fun (observation, run) =>
    ⟨item.workItemId, item.role, item.revision, item.target, observation, run.name,
      run.fingerprint⟩)

/-- The observation facts of every terminal result; work without one contributes nothing. -/
def collectedResultFacts : List (WorkItem × List ResultObservation) →
    Except IntegrityError (List ObservationFact)
  | [] => .ok []
  | (item, results) :: rest => do
    let facts ← observationFacts item results
    let others ← collectedResultFacts rest
    .ok (facts ++ others)

end Facts

end Booley.Simulation
