import Booley.Goals.RecordStore
import Booley.TestRuns.Freezing

/-!
# Goal change proposals

A proposal, the human's decision on it, and the record an approved one asks for. Texts that
no rule looks into stay texts.
-/
namespace Booley.Goals

open Booley.Lib Booley.TestRuns

/-- What a Goal change does to one Goal. -/
inductive ChangeKind where
  | add | relax | retarget | waiver
deriving DecidableEq, Repr

/-- How the human's decision reached Booley. -/
inductive Approval where
  | elicited | agentRecorded
deriving DecidableEq, Repr

/-- An immutable request to change one Goal. -/
structure Proposal where
  id : String
  recordId : String
  worktree : WorktreeIdentity
  kind : ChangeKind
  goalKey : String
  before : Option GoalSpec
  after : GoalSpec
  afterArg : Option String
  runtimeParams : String
  rationale : String
  recordRevision : Nat
  sessionKey : Option String
  createdAt : String
  waiver : Option String
deriving DecidableEq

inductive Answer where
  | approve | reject
deriving DecidableEq, Repr

/-- One human decision, durable independently of its application. -/
structure Decision where
  decision : Answer
  reason : String
  source : Approval
  quote : Option String
  decidedAt : String
  payloadDigest : String
  sessionKey : Option String
  transactionId : Option String
  peerProcess : Option String
deriving DecidableEq

/-- One approved Goal change, as an intent line of the Change Log holds it. -/
structure ChangeEntry where
  id : String
  decidedAt : String
  kind : ChangeKind
  goalKey : String
  before : Option GoalSpec
  after : GoalSpec
  reason : String
  approval : Approval
  quote : Option String
  sessionKey : Option String
  peerProcess : Option String
  transactionRef : Option String
deriving DecidableEq

/-- Every way a proposal, a decision or its application is refused. -/
inductive ProposalError where
  | alreadyDecided
  | notActive (state : GoalState)
  | applyInterrupted (ids : List String)
  | conflict (reason : String)
  | preparation (reason : String)
  | store (refusal : StoreError)
  | resolution (refusal : TestRunError)
  | aheadOfRecord
  | malformedProposal (id : String)
  | decisionMismatch
  | missingTransaction (id : String)
  | unboundTransaction
  | substitutedTransaction
  | logEntryDiffers
  | symlinkDestination (path : String)
  | recoveryConflict (path : String)
  | corruptLog
  | logOrder (id : String)
  | severalApproved
  | unresolvedIntents (ids : List String)
deriving DecidableEq

/-! ## Conflicts with the record -/

/-- The part of a review Goal's key before its last underscore. -/
def reviewSlot (key : String) : List Char :=
  match key.toList.reverse.dropWhile (· ≠ '_') with
  | [] => key.toList
  | _ :: start => start.reverse

/-- Whether two Goals take one slot: one key, or a review's clean and done. -/
def sameSlot (left right : GoalSpec) : Bool :=
  left.key = right.key ||
    (left.family = .review && right.family = .review &&
      reviewSlot left.key = reviewSlot right.key)

/-- Why a proposal cannot be applied to a record; empty when it can. -/
def conflict (proposal : Proposal) (record : GoalRecord) : String :=
  let current := record.goals.map RecordedGoal.spec
  let held := (current.reverse.find? (·.key = proposal.goalKey))
  let others := current.filter fun goal =>
    goal.key ≠ proposal.goalKey || proposal.kind = .add
  if proposal.recordId ≠ record.id ∨ proposal.worktree ≠ record.worktree then
    "proposal belongs to another Goal record/worktree"
  else if proposal.before.isSome && record.goals.any (fun goal =>
      goal.spec.key = proposal.goalKey && proposal.recordRevision < goal.specRevision) then
    "the Goal specification revision changed since this proposal"
  else if proposal.before.isSome && held ≠ proposal.before then
    "the Goal changed since this proposal; reject it and create a new proposal"
  else if proposal.kind = .add && current.any (·.key = proposal.after.key) then
    "the added Goal's destination is occupied"
  else if others.any (sameSlot proposal.after) then
    "the destination conflicts with an existing Goal (including review clean/done)"
  else ""

/-! ## The next record -/

/-- The Goals of a record after an approved change, at the record's next revision. -/
def nextGoals (record : GoalRecord) (proposal : Proposal) : List RecordedGoal :=
  let replacement : RecordedGoal := ⟨proposal.after, record.revision + 1⟩
  if proposal.kind = .add then record.goals ++ [replacement]
  else record.goals.map fun goal =>
    if goal.spec.key = proposal.goalKey then replacement else goal

/-- The record with an approved change, before its Test Runs are frozen. -/
def nextRecord (record : GoalRecord) (proposal : Proposal) : Except ProposalError GoalRecord :=
  if record.goals.any fun goal => record.revision + 1 ≤ goal.specRevision then
    .error .aheadOfRecord
  else
    let goals := nextGoals record proposal
    let kept := record.testRunResolutions.keys.foldl (fun kept key =>
      if goals.any fun goal => goal.spec.key = key then kept
      else AList.erase key kept) record.testRunResolutions
    let next := { record with
      revision := record.revision + 1
      goals := goals
      testRunResolutions := kept }
    match next.validate with
    | .ok next => .ok next
    | .error refusal => .error (.store refusal)

/-- The frozen Test Runs of the Goals a change leaves alone. -/
def siblingResolutions (record updated : GoalRecord) (proposal : Proposal) :
    List (RecordedGoal × TestRunResolution) :=
  updated.goals.filterMap fun goal =>
    if goal.spec.key = proposal.goalKey ∨ goal.spec.key = proposal.after.key then none
    else (record.testRunResolution goal.spec.key).map (goal, ·)

/-- What freezing the Test Runs of a changed Goal reads. -/
structure FreezeSource where
  plans : TargetPlans
  request : ResolutionRequest
  presentation : GoalSpec → String

/-- The frozen Test Runs of the changed Goal, if it names any. -/
def changedResolution (record : GoalRecord) (after : RecordedGoal) (proposal : Proposal)
    (siblings : List (RecordedGoal × TestRunResolution)) (source : FreezeSource) :
    Except ProposalError (Option TestRunResolution) :=
  if namesTestRuns after.spec then
    let before := match proposal.before, record.testRunResolution proposal.goalKey with
      | some before, some held => some (before, held)
      | _, _ => none
    let refreeze := proposal.kind = .retarget && proposal.before = some proposal.after
    match refreezeChangedGoal after before source.plans source.request refreeze siblings with
    | .ok resolution => .ok resolution
    | .error refusal => .error (.resolution refusal)
  else .ok none

/-- The next record with the changed Goal's Test Runs frozen, and no other Goal's changed. -/
def withFrozenTestRuns (record updated : GoalRecord) (proposal : Proposal)
    (source : FreezeSource) : Except ProposalError GoalRecord := do
  let siblings := siblingResolutions record updated proposal
  let changed ← (
    match updated.goals.find? fun goal => goal.spec.key = proposal.after.key with
    | some after => changedResolution record after proposal siblings source
    | none => .ok none)
  let own : Dict String TestRunResolution := match changed with
    | some resolution => (∅ : Dict String TestRunResolution).insert proposal.after.key resolution
    | none => ∅
  let resolutions := siblings.foldl (fun dict sibling =>
    AList.insert sibling.1.spec.key sibling.2 dict) own
  match GoalRecord.validate { updated with testRunResolutions := resolutions } with
  | .error refusal => .error (.store refusal)
  | .ok frozen =>
    let violation := GoalRecord.frozenRunViolation source.presentation record frozen
    if violation ≠ "" then .error (.preparation violation) else .ok frozen

/-- The record an approved proposal asks for. -/
def approvedRecord (record : GoalRecord) (proposal : Proposal) (source : FreezeSource) :
    Except ProposalError GoalRecord := do
  let updated ← nextRecord record proposal
  withFrozenTestRuns record updated proposal source

/-- An approved record is the next one, with the change at its own revision. -/
theorem approvedRecord_spec {record next : GoalRecord} {proposal : Proposal}
    {source : FreezeSource} (h : approvedRecord record proposal source = .ok next) :
    (∀ goal ∈ record.goals, goal.specRevision ≤ record.revision) ∧ next.defect = none ∧
      ∃ resolutions, next = { record with
        revision := record.revision + 1
        goals := nextGoals record proposal
        testRunResolutions := resolutions } := by
  obtain ⟨updated, hupdated, hfrozen⟩ := except_bind_eq_ok.mp h
  unfold nextRecord at hupdated
  split_ifs at hupdated with hahead
  have hbound : ∀ goal ∈ record.goals, goal.specRevision ≤ record.revision := by
    intro goal hgoal
    by_contra hlt
    exact hahead (List.any_eq_true.mpr ⟨goal, hgoal, decide_eq_true (by omega)⟩)
  simp only at hupdated
  split at hupdated
  case h_2 => cases hupdated
  case h_1 valid hvalid =>
    obtain rfl := Except.ok.inj hupdated
    obtain ⟨-, rfl⟩ := GoalRecord.validate_eq_ok.mp hvalid
    obtain ⟨changed, -, hfrozen⟩ := except_bind_eq_ok.mp hfrozen
    simp only at hfrozen
    split at hfrozen
    case h_1 => cases hfrozen
    case h_2 frozen hvalid =>
      split_ifs at hfrozen with hviolation
      obtain rfl := Except.ok.inj hfrozen
      obtain ⟨hdefect, rfl⟩ := GoalRecord.validate_eq_ok.mp hvalid
      exact ⟨hbound, hdefect, _, rfl⟩

/-- A Goal of the next record is one of the record, or the approved one at the new revision. -/
theorem mem_nextGoals {record : GoalRecord} {proposal : Proposal} {goal : RecordedGoal}
    (h : goal ∈ nextGoals record proposal) :
    goal ∈ record.goals ∨ goal = ⟨proposal.after, record.revision + 1⟩ := by
  unfold nextGoals at h
  split_ifs at h with hadd
  · simpa using h
  · obtain ⟨held, hheld, rfl⟩ := List.mem_map.mp h
    by_cases hkey : held.spec.key = proposal.goalKey
    · exact .inr (by simp [hkey])
    · exact .inl (by simpa [hkey] using hheld)

end Booley.Goals
