import Booley.Goals.State
import Booley.TestRuns.Outcomes
import Mathlib.Data.List.MinMax
import Mathlib.Data.List.Sort

/-!
# Judging a Goal by its frozen Test Runs

A change of a Goal that names Test Runs is judged by the observations recorded before it at
the same specification revision and the same dependent file contents. A detail is a JSON
object with the entries the judging reads set apart from the rest.
-/
namespace Booley.Goals

open Booley.Lib Booley.TestRuns

variable {J : Type}

def reasonPending : String := "goal-test-run-pending"
def reasonEmpty : String := "goal-simulation-suite-empty"
def reasonFailed : String := "goal-test-run-failed"
def reasonIncomplete : String := "goal-test-run-incomplete"
def reasonNotMeasured : String := "goal-test-run-metric-missing"

/-- What identifies one adoption: the campaign and the results it held. -/
structure AdoptedMarker where
  campaignId : String
  manifestSha256 : String
  resultsSha256 : String
deriving DecidableEq, Repr

/-- The detail of an observation. `digests` are those of its source fingerprint, by category. -/
structure Detail (J : Type) where
  testRuns : List TestRunRow
  outcomesOnly : Bool
  testRunLedger : Option J
  digests : List (String × String)
  goalContractViolation : Option String
  adopted : Option AdoptedMarker
  rest : J

/-- One observation as the ledger returns it, with its place in the ledger. -/
structure LedgerRow (J : Type) extends EvidenceRow (Detail J) where
  sequence : Nat

/-! ## A Goal judged by Test Runs -/

/-- The Goal family whose runs are of a kind. -/
def familyOf : GoalRunsKind → GoalFamily
  | .simulation => .sim
  | .cycleCount => .cycleCount
  | .coverage => .coverage

/-- A Goal of a record that names Test Runs of a Target. -/
structure TestRunGoal extends RecordedGoal where
  kind : GoalRunsKind
  target : String
  family_eq : spec.family = familyOf kind
  target_eq : spec.target = some target

/-- The Goals judged this way are those that name Test Runs. -/
theorem exists_testRunGoal_iff {goal : RecordedGoal} :
    (∃ judged : TestRunGoal, judged.toRecordedGoal = goal) ↔ namesTestRuns goal.spec = true := by
  constructor
  · rintro ⟨judged, rfl⟩
    have hfamily := judged.family_eq
    cases hkind : judged.kind with
    | simulation => simp [namesTestRuns, testRunFamilies, judged.target_eq, hfamily, hkind, familyOf]
    | cycleCount => simp [namesTestRuns, testRunFamilies, judged.target_eq, hfamily, hkind, familyOf]
    | coverage => simp [namesTestRuns, testRunFamilies, judged.target_eq, hfamily, hkind, familyOf]
  · intro h
    simp only [namesTestRuns, testRunFamilies, Bool.and_eq_true, decide_eq_true_eq, List.mem_cons,
      List.not_mem_nil, or_false, Option.isSome_iff_exists] at h
    obtain ⟨hfamily, target, htarget⟩ := h
    rcases hfamily with hsim | hcycle | hcoverage
    · exact ⟨⟨goal, .simulation, target, hsim, htarget⟩, rfl⟩
    · exact ⟨⟨goal, .cycleCount, target, hcycle, htarget⟩, rfl⟩
    · exact ⟨⟨goal, .coverage, target, hcoverage, htarget⟩, rfl⟩

/-- The frozen Test Runs of a Goal as a Flow reads them; nothing while unresolved. -/
def goalTestRuns (goal : TestRunGoal) (resolution : Option TestRunResolution) : GoalTestRuns :=
  match resolution with
  | none => ⟨goal.spec.key, goal.kind, goal.target, [], false⟩
  | some resolution =>
    ⟨goal.spec.key, goal.kind, goal.target, resolution.testRuns, resolution.pending.isEmpty⟩

/-- The frozen Test Runs of a Goal in one record. -/
def frozenIn (goal : TestRunGoal) (record : GoalRecord) : GoalTestRuns :=
  goalTestRuns goal (record.testRunResolution goal.spec.key)

/-! ## Which observations accumulate -/

def fingerprintCategories : List (List String × List String) :=
  [(["review_rtl_"], ["rtl"]),
    (["review_tb_"], ["tb"]),
    (["mutation_score_", "coverage_"], ["rtl", "tb", "campaign"]),
    (["cycle_count_"], ["rtl", "tb", "campaign", "workload"]),
    (["sim_", "elab_"], ["rtl", "tb"]),
    (["lint_", "synthesis_", "fpga_impl_", "elaborate_standalone"], ["rtl"])]

/-- Source categories that a passing verification Criterion depends on. -/
def verificationFingerprintCategories (key : String) : List String :=
  match fingerprintCategories.find? fun entry =>
      entry.1.any fun start => start.toList.isPrefixOf key.toList with
  | some entry => entry.2
  | none => []

/-- The categories Goal evidence must stamp; empty when it has none. -/
def goalRequiredCategories (key : String) : List String :=
  let base := verificationFingerprintCategories key
  if base = [] then [] else base ++ ["target_surface"]

variable [Digests]

/-- What identifies the dependent file contents an observation was recorded at; `none` when
it does not stamp every category. -/
def freshnessStamp (key : String) (detail : Detail J) : Option String :=
  ((goalRequiredCategories key).mapM fun category =>
    (detail.digests.lookup category).map (category, ·)).map Digests.contents

/-- Whether the outcomes of the frozen runs decide a Goal. -/
def outcomesDecide (goal : TestRunGoal) : Bool := goal.kind ≠ .coverage

/-- Whether a row is a candidate observation under a key, at whatever revision. -/
def candidateOf (key : String) (row : LedgerRow J) : Bool :=
  row.criterion = key && row.role = .candidate

/-- Which observations accumulate with one another: one Goal at one revision. -/
structure HistoryScope where
  recordId : String
  key : String
  specRevision : Nat
  accumulates : Bool

namespace HistoryScope

/-- The scope of a Goal at its specification revision. -/
def of (record : GoalRecord) (goal : TestRunGoal) : HistoryScope :=
  ⟨record.id, goal.spec.key, goal.specRevision, outcomesDecide goal⟩

/-- Whether a row is a candidate observation of the Goal of a scope. -/
def holds (scope : HistoryScope) (row : LedgerRow J) : Bool :=
  candidateOf scope.key row && row.recordId = scope.recordId &&
    row.specRevisions.lookup scope.key = some scope.specRevision

/-- Candidate rows of a scope at a stamp with a sequence below `before`, in order. -/
def atContents (scope : HistoryScope) (history : List (LedgerRow J)) (stamp : Option String)
    (before : Option Nat) : List (LedgerRow J) :=
  match stamp with
  | none => []
  | some stamp =>
    (history.insertionSort fun a b => a.sequence ≤ b.sequence).filter fun row =>
      scope.holds row && before.all (row.sequence < ·) &&
        freshnessStamp scope.key row.detail = some stamp

/-- The earlier observations an observation at a stamp folds: none unless it accumulates. -/
def accumulating (scope : HistoryScope) (history : List (LedgerRow J)) (stamp : Option String)
    (before : Option Nat) : List (LedgerRow J) :=
  if scope.accumulates then scope.atContents history stamp before else []

end HistoryScope

/-- The Test Run rows of some observations. -/
def testRunRows (observations : List (LedgerRow J)) : List TestRunRow :=
  observations.flatMap (·.detail.testRuns)

/-- Earlier observations and an observation's own rows, folded. -/
def runOutcomes (scope : HistoryScope) (required : List TestRun) (detail : Detail J)
    (history : List (LedgerRow J)) (before : Option Nat) : List ((String × String) × Outcome) :=
  let earlier := scope.accumulating history (freshnessStamp scope.key detail) before
  foldTestRunOutcomes (testRunRows earlier ++ detail.testRuns) required

/-! ## Defects -/

/-- Why a Goal with a resolution cannot be met by any evidence yet: reason and text. -/
def requirementDefect (resolution : Option TestRunResolution) : Option (String × String) :=
  match resolution with
  | none => some (reasonPending, "the Goal's Test Runs are not resolved yet")
  | some resolution =>
    if resolution.pending ≠ [] then
      let slots := resolution.pending.map fun slot =>
        if slot = suiteSlot then "every Test of the Target" else slot
      some (reasonPending, "the Goal's Test Runs are not resolved yet (" ++
        ", ".intercalate slots ++ " does not exist)")
    else if resolution.runs = [] then
      some (reasonEmpty, "the Goal requires no Test Run: the Target's suite is empty")
    else none

/-- Why a fold does not meet a Goal its outcomes decide: reason and text. -/
def outcomeDefect (runs : List ((String × String) × Outcome)) : Option (String × String) :=
  if runsWith .failed runs ≠ [] then
    some (reasonFailed, "Test Runs failed at these file contents: " ++
      ", ".intercalate (runsWith .failed runs))
  else if runsWith .missing runs ≠ [] then
    some (reasonIncomplete, "Test Runs have not passed yet: " ++
      ", ".intercalate (runsWith .missing runs))
  else none

/-- What to run so that one invocation measures the metric. A simulation Goal has no metric:
looking its text up raises `KeyError`. -/
def measuringRun : GoalRunsKind → Except String String
  | .simulation => .error "KeyError"
  | .cycleCount => .ok "run the Goal's frozen Test Run to measure its Cycle Count"
  | .coverage => .ok ("run exactly the Goal's frozen Test Runs in one coverage campaign " ++
      "to measure coverage")

/-! ## The judged change -/

/-- Whether an observation itself measured the metric of a Goal. -/
def measured (detail : Detail J) (frozen : GoalTestRuns) : Bool :=
  !detail.outcomesOnly && frozen.measuredBy detail.testRuns

/-- The selected observation of a Goal, when it is the newest of `here`. -/
def selected (key : String) (history here : List (LedgerRow J)) : Option (LedgerRow J) :=
  match (history.filter (candidateOf key)).argmax LedgerRow.sequence, here.getLast? with
  | some latest, some newest => if newest.sequence ≠ latest.sequence then none else some latest
  | _, _ => none

/-- Whether an unmeasured change leaves the verdict of the selected observation as it is. -/
def addsNothing (selected : LedgerRow J) (outcomes : List ((String × String) × Outcome))
    (scope : HistoryScope) (frozen : GoalTestRuns) (history : List (LedgerRow J)) : Bool :=
  if !measured selected.detail frozen then false
  else if scope.accumulates then
    outcomes = runOutcomes scope frozen.runs selected.detail history (some selected.sequence)
  else selected.detail.goalContractViolation = none

/-- The selected measurement's own rows and verdict, recorded again. -/
def restated (change : CriterionChange (Detail J)) (selected : LedgerRow J) :
    CriterionChange (Detail J) :=
  { change with
    met := selected.met
    reason := "outcome"
    detail := { selected.detail with testRunLedger := none } }

/-- A change with its own matching rows only. -/
def ownChange (change : CriterionChange (Detail J)) (frozen : GoalTestRuns) :
    CriterionChange (Detail J) :=
  { change with detail := { change.detail with
      testRunLedger := none
      testRuns := frozen.matching change.detail.testRuns } }

/-- The observation an unmeasured change restates, if any. -/
def restating (change : CriterionChange (Detail J)) (goal : TestRunGoal) (record : GoalRecord)
    (history : List (LedgerRow J)) : Option (LedgerRow J) :=
  let frozen := frozenIn goal record
  let scope := HistoryScope.of record goal
  let own := ownChange change frozen
  let here := scope.atContents history (freshnessStamp scope.key own.detail) none
  let outcomes := runOutcomes scope frozen.runs own.detail history none
  if measured change.detail frozen then none
  else (selected scope.key history here).filter fun row =>
    addsNothing row outcomes scope frozen history

/-- The first of the requirement's, the outcomes' and the measurement's defects. -/
def verdictDefect (goal : TestRunGoal) (resolution : Option TestRunResolution)
    (outcomes : List ((String × String) × Outcome)) (measured : Bool) :
    Except String (Option (String × String)) :=
  match requirementDefect resolution with
  | some defect => .ok (some defect)
  | none =>
    match if outcomesDecide goal then outcomeDefect outcomes else none with
    | some defect => .ok (some defect)
    | none =>
      if measured then .ok none
      else do
        let how ← measuringRun goal.kind
        .ok (some (reasonNotMeasured, "this run did not measure the Goal; " ++ how))

/-- The verdict a change is recorded with. A measured threshold the producer found unmet keeps
the producer's reason. -/
def settled (goal : TestRunGoal) (change : CriterionChange (Detail J)) (measured : Bool)
    (defect : Option (String × String)) : CriterionChange (Detail J) :=
  let produced := goal.kind = .simulation || change.met
  match defect with
  | none => { change with met := produced, reason := "outcome" }
  | some (reason, text) =>
    { change with
      met := false
      reason := if produced || !measured then reason else change.reason
      detail := { change.detail with goalContractViolation := some text } }

/-- A change with its own matching rows and the verdict history allows. -/
def judgedChange (change : CriterionChange (Detail J)) (goal : TestRunGoal)
    (record : GoalRecord) (history : List (LedgerRow J)) :
    Except String (CriterionChange (Detail J)) := do
  let frozen := frozenIn goal record
  let own := ownChange change frozen
  let outcomes := runOutcomes (HistoryScope.of record goal) frozen.runs own.detail history none
  let (observed, measured) := match restating change goal record history with
    | some row => (restated own row, true)
    | none => (own, measured change.detail frozen)
  let defect ← verdictDefect goal (record.testRunResolution goal.spec.key) outcomes measured
  .ok (settled goal observed measured defect)

/-! ## Adoption of a campaign's results -/

/-- The durable results of a registered campaign: the rows, and the digests its start
stamped for the Goal. -/
structure CampaignResults where
  rows : List TestRunRow
  marker : AdoptedMarker
  digests : List (String × String)

/-- The rows of a campaign that a Goal adopts: only failures, unless its passes count. -/
def adoptedRows (frozen : GoalTestRuns) (results : CampaignResults) (passes : Bool) :
    List TestRunRow :=
  (frozen.matching results.rows).filter fun row =>
    row.grade = some "fail" || (passes && row.grade = some "pass")

/-- Whether the current evidence of a Goal holds the adoption of these results. -/
def alreadyAdopted (record : GoalRecord) (history : List (LedgerRow J)) (key : String)
    (results : CampaignResults) : Except String Bool := do
  let rows ← currentObservations record (history.map LedgerRow.toEvidenceRow)
  .ok (rows.any fun row =>
    row.criterion = key && row.role = .candidate && row.detail.adopted = some results.marker)

/-- The unmet change adopted results enter the judging with. `rest` is what the evaluation of
the Criterion's thresholds leaves in the detail. -/
def adoptedChange (goal : TestRunGoal) (frozen : GoalTestRuns) (results : CampaignResults)
    (passes : Bool) (mandatory : Bool) (params : Detail J) (rest : J) :
    CriterionChange (Detail J) :=
  let entries := frozen.outcomesDetail (adoptedRows frozen results passes)
  { key := goal.spec.key
    met := false
    reason := "outcome"
    mandatory := mandatory
    params := params
    detail :=
      { testRuns := entries.testRuns
        outcomesOnly := entries.outcomesOnly
        testRunLedger := none
        digests := results.digests
        goalContractViolation := none
        adopted := some results.marker
        rest := rest } }

/-- A change that names the adoption it records, restated or not. -/
def withMarker (change : CriterionChange (Detail J)) (results : CampaignResults) :
    CriterionChange (Detail J) :=
  { change with detail := { change.detail with adopted := some results.marker } }

/-- The judged change an adoption appends; `none` when there is nothing to adopt. -/
def adopt (goal : TestRunGoal) (record : GoalRecord) (declared : Bool)
    (history : List (LedgerRow J)) (results : CampaignResults) (passes : Bool)
    (mandatory : Bool) (params : Detail J) (rest : J) :
    Except String (Option (CriterionChange (Detail J))) :=
  let frozen := frozenIn goal record
  if adoptedRows frozen results passes = [] ∨ !declared then .ok none
  else do
    if ← alreadyAdopted record history goal.spec.key results then .ok none
    else do
      let change := adoptedChange goal frozen results passes mandatory params rest
      let judged ← judgedChange change goal record history
      .ok (some (withMarker judged results))

/-- The row a recorded change becomes. -/
def ledgerRow (record : GoalRecord) (specRevisions : List (String × Nat)) (sequence : Nat)
    (recordedAt : String) (change : CriterionChange (Detail J)) : LedgerRow J where
  recordId := record.id
  goalKeys := specRevisions.map (·.1)
  specRevisions := specRevisions
  criterion := change.key
  role := .candidate
  met := change.met
  mandatory := change.mandatory
  reason := some change.reason
  params := change.params
  detail := change.detail
  recordedAt := recordedAt
  sequence := sequence

end Booley.Goals
