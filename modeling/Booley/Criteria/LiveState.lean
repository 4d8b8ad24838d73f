import Booley.Criteria.Evaluation
import Booley.Goals.State

/-!
# Setting a declared Criterion

What a report does to the entry of a declared Criterion, and the replay of the changes it emits.
The verdict of a report is a function of the Criterion's parameters and of the report alone; a
threshold that fails overrides what was reported.
-/
namespace Booley.Criteria

open Booley.Lib Booley.Goals

/-- The canonical texts of JSON objects. -/
class CanonicalTexts where
  canonical : Json.Fields → String

instance [CanonicalTexts] : JsonObject Json.Fields where
  toBEq := instBEqOfDecidableEq
  empty := []
  canonical := CanonicalTexts.canonical
  text? fields key := (fields.get key).bind Json.text?

/-! ## Reports -/

/-- One call of `set_criterion` for a declared Criterion. -/
structure Report where
  met : Bool
  detail : Option Json.Fields
  recordedAt : String

namespace Report

/-- The detail a report carries; an empty one counts as none. -/
def given (report : Report) : Option Json.Fields :=
  report.detail.filter fun detail => !detail.isEmpty

/-- The open findings a detail lists. -/
def pendingFindings (detail : Json.Fields) : List Json :=
  match detail.get "pending" with
  | some (.list items) => items
  | _ => []

/-- The reported verdict; findings still open force it to unmet. -/
def guarded (report : Report) : Bool :=
  report.met && !(report.given.any fun detail => !(pendingFindings detail).isEmpty)

end Report

/-! ## Threshold evaluation -/

/-- What a detail proves about the recipe of its run, and how that is recorded. -/
structure RecipeEvidence where
  complete : Bool
  comparison : Json

/-- What the evaluation of a detail calls on: floating-point arithmetic, the recipe evidence of
parameters and a detail, and the comparison that is recorded with Cycle Counts. -/
structure Evaluators where
  floats : FloatArithmetic
  recipeEvidence : Json.Fields → Json.Fields → RecipeEvidence
  cycleComparison : Json.Fields → Json.Fields → List Check → Json

/-- The fingerprint that asks for recipe evidence. -/
def expectedRecipe (params : Json.Fields) : Option Json :=
  (params.get "_recipe_fingerprint").filter (· ≠ .null)

section Entries

variable (eval : Evaluators)

/-- The check of the recipe evidence, and the detail that records the comparison. -/
def evaluateRecipeEvidence (params detail : Json.Fields) : List Check × Json.Fields :=
  match expectedRecipe params with
  | none => ([], detail)
  | some _ =>
    let evidence := eval.recipeEvidence params detail
    ([⟨"_recipe_evidence", evidence.complete, false⟩],
      detail.set "recipe_comparison" evidence.comparison)

def evaluationChecks (params detail : Json.Fields) : List Check :=
  (evaluateRecipeEvidence eval params detail).1 ++ evaluateMetricParams eval.floats params detail

/-- The detail with the checks made of it. -/
def evaluatedDetail (params detail : Json.Fields) : Json.Fields :=
  let checks := evaluationChecks eval params detail
  let recorded := (evaluateRecipeEvidence eval params detail).2.set "checks"
    (.list (checks.map Check.toJson))
  if params.any fun param => (cycleCountParams.lookup param.1).isSome then
    recorded.set "cycle_comparison" (eval.cycleComparison params recorded checks)
  else recorded

/-- Evaluate the thresholds of an entry against its detail. A failure takes back the verdict and
the latch. -/
def evaluateThresholds (entry : CriterionEntry Json.Fields) : CriterionEntry Json.Fields :=
  let passed := (evaluationChecks eval entry.params entry.detail).all Check.passed
  { entry with
    detail := evaluatedDetail eval entry.params entry.detail
    met := entry.met && passed
    everMet := entry.everMet && passed }

variable [CanonicalTexts] (latchFollowsJudged : Bool) (key : String)

/-- The entry as the report says, before its thresholds are evaluated. -/
def reportedEntry (entry : CriterionEntry Json.Fields) (report : Report) :
    CriterionEntry Json.Fields :=
  { entry with
    met := report.guarded
    stale := false
    everMet := entry.everMet || report.guarded
    everFailed := entry.everFailed || (!report.guarded && !latchFollowsJudged)
    updatedAt := report.recordedAt
    detail := report.given.getD entry.detail }

/-- Append the transition of a red-to-green Criterion. -/
def withTransition (entry : CriterionEntry Json.Fields) (recordedAt : String) :
    CriterionEntry Json.Fields :=
  if JsonObject.text? entry.params "from_state" = some "fail" then
    { entry with
      transitionEvidence := entry.transitionEvidence ++ [⟨entry.met, recordedAt, entry.detail⟩] }
  else entry

/-- Update an existing entry. -/
def setCriterionEntry (entry : CriterionEntry Json.Fields) (report : Report) :
    CriterionEntry Json.Fields × CriterionChange Json.Fields :=
  let reported := reportedEntry latchFollowsJudged entry report
  let evaluated := if !entry.params.isEmpty && report.given.isSome
    then evaluateThresholds eval reported else reported
  let after := withTransition evaluated report.recordedAt
  (after, ⟨key, after.met, "outcome", after.detail, after.mandatory, after.params⟩)

/-- An entry as a Criterion is declared. -/
def declaredEntry (mandatory : Bool) (params : CriterionParams) (declaredAt : String) :
    CriterionEntry Json.Fields :=
  { met := false, mandatory := mandatory, everMet := false, everFailed := false, locked := false
    updatedAt := declaredAt, detail := [], params := params.fields, stale := false
    transitionEvidence := [] }

/-- The entry after a sequence of reports. -/
def liveEntry (entry : CriterionEntry Json.Fields) (reports : List Report) :
    CriterionEntry Json.Fields :=
  reports.foldl (fun entry report =>
    (setCriterionEntry eval latchFollowsJudged key entry report).1) entry

/-- The changes a sequence of reports emits, with the time of each. -/
def emittedChanges (entry : CriterionEntry Json.Fields) :
    List Report → List (CriterionChange Json.Fields × String)
  | [] => []
  | report :: later =>
    let next := setCriterionEntry eval latchFollowsJudged key entry report
    (next.2, report.recordedAt) :: emittedChanges next.1 later

end Entries

/-! ## Replay -/

/-- The record, the Goals and the specification revisions a row is recorded for. -/
structure RowIdentity where
  recordId : String
  goalKeys : List String
  specRevisions : List (String × Nat)

/-- The row that records a change. -/
def observationRow (identity : RowIdentity) (change : CriterionChange Json.Fields × String) :
    EvidenceRow Json.Fields :=
  { identity with
    criterion := change.1.key, role := .candidate, met := change.1.met
    mandatory := change.1.mandatory, reason := some change.1.reason, params := change.1.params
    detail := change.1.detail, recordedAt := change.2 }

/-- Apply the rows of a sequence of changes, one observation after the other. -/
def replayedEntry [CanonicalTexts] (identity : RowIdentity) (entry : CriterionEntry Json.Fields)
    (changes : List (CriterionChange Json.Fields × String)) : CriterionEntry Json.Fields :=
  changes.foldl (fun entry change => applyObservation entry (observationRow identity change)) entry

/-! ## The verdict of one report -/

namespace Report

variable (eval : Evaluators) (params : Json.Fields)

/-- The checks made of the detail a report carries. -/
def checks (report : Report) : List Check :=
  match report.given with
  | some detail => evaluationChecks eval params detail
  | none => []

/-- Whether no threshold that was evaluated fails. -/
def passes (report : Report) : Bool := (report.checks eval params).all Check.passed

/-- The verdict of the entry after the report. -/
def effective (report : Report) : Bool := report.guarded && report.passes eval params

end Report

section Verdicts

variable {eval : Evaluators} {latchFollowsJudged : Bool} {key : String}
variable {entry : CriterionEntry Json.Fields} {report : Report}

theorem checks_of_no_params (report : Report) : report.checks eval [] = [] := by
  cases h : report.given with
  | none => simp [Report.checks, h]
  | some detail =>
    simp [Report.checks, h, evaluationChecks, evaluateRecipeEvidence, expectedRecipe,
      Json.Fields.get, evaluateMetricParams]

/-- What the evaluation leaves of a reported entry: the verdict and the latch it met, unless a
threshold fails. -/
theorem evaluated_entry (eval : Evaluators) (latchFollowsJudged : Bool)
    (entry : CriterionEntry Json.Fields) (report : Report) :
    ∃ detail, (if !entry.params.isEmpty && report.given.isSome
        then evaluateThresholds eval (reportedEntry latchFollowsJudged entry report)
        else reportedEntry latchFollowsJudged entry report) =
      { reportedEntry latchFollowsJudged entry report with
        detail := detail
        met := report.guarded && report.passes eval entry.params
        everMet := (entry.everMet || report.guarded) && report.passes eval entry.params } := by
  cases hgiven : report.given with
  | none =>
    refine ⟨entry.detail, ?_⟩
    simp [Report.passes, Report.checks, hgiven, reportedEntry]
  | some detail =>
    cases hparams : entry.params with
    | nil =>
      refine ⟨detail, ?_⟩
      simp only [Report.passes, checks_of_no_params, List.all_nil, Bool.and_true,
        List.isEmpty_nil, Bool.not_true, Bool.false_and, Bool.false_eq_true, if_false,
        reportedEntry, hgiven, Option.getD_some]
    | cons param rest =>
      refine ⟨evaluatedDetail eval entry.params detail, ?_⟩
      simp only [List.isEmpty_cons, Bool.not_false, Option.isSome_some, Bool.and_self, if_true,
        evaluateThresholds, Report.passes, Report.checks, hgiven]
      simp only [reportedEntry, hgiven, Option.getD_some, hparams]

variable [CanonicalTexts]

@[simp] theorem withTransition_met (recordedAt : String) :
    (withTransition entry recordedAt).met = entry.met := by
  simp only [withTransition]
  split_ifs <;> rfl

@[simp] theorem withTransition_everMet (recordedAt : String) :
    (withTransition entry recordedAt).everMet = entry.everMet := by
  simp only [withTransition]
  split_ifs <;> rfl

@[simp] theorem withTransition_everFailed (recordedAt : String) :
    (withTransition entry recordedAt).everFailed = entry.everFailed := by
  simp only [withTransition]
  split_ifs <;> rfl

@[simp] theorem withTransition_params (recordedAt : String) :
    (withTransition entry recordedAt).params = entry.params := by
  simp only [withTransition]
  split_ifs <;> rfl

/-- One report settles the verdict, and what it does to each latch. -/
theorem setCriterionEntry_spec (eval : Evaluators) (latchFollowsJudged : Bool) (key : String)
    (entry : CriterionEntry Json.Fields) (report : Report) :
    let next := setCriterionEntry eval latchFollowsJudged key entry report
    next.1.met = report.effective eval entry.params ∧
      next.1.everMet = ((entry.everMet || report.guarded) && report.passes eval entry.params) ∧
      next.1.everFailed = (entry.everFailed || (!report.guarded && !latchFollowsJudged)) ∧
      next.1.params = entry.params ∧ next.2.met = next.1.met ∧ next.2.reason = "outcome" ∧
      next.2.params = entry.params := by
  obtain ⟨detail, heq⟩ := evaluated_entry eval latchFollowsJudged entry report
  simp only [setCriterionEntry, heq, withTransition_met, withTransition_everMet,
    withTransition_everFailed, withTransition_params, Report.effective]
  exact ⟨trivial, trivial, rfl, rfl, trivial, trivial, rfl⟩

end Verdicts

end Booley.Criteria
