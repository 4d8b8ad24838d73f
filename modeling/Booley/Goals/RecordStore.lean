import Mathlib.Data.List.Sort
import Booley.Goals.Record

/-!
# The compare-and-swap of a Goal Record

What a save checks before it publishes a record, and the updates its callers compute from a
record they loaded. The formats of the texts a record holds are not looked into.
-/
namespace Booley.Goals

open Booley.Lib Booley.TestRuns

/-- Every way a record update is refused. -/
inductive StoreError where
  | notEntering
  | duplicateKeys (keys : List String)
  | alreadyPublished
  | notPublished
  | staleRevision (current read : Nat)
  | forbiddenTransition (before after : GoalState)
  | publicationFence
  | creationFields (names : List String)
  | frozenRuns (violation : String)
  | recordFormat (reason : String)
deriving DecidableEq, Repr

namespace GoalRecord

/-- The fields fixed when a record is created, each with whether two records agree on it. -/
def creationFields (record current : GoalRecord) : List (String × Bool) :=
  [("id", record.id = current.id), ("worktree", record.worktree = current.worktree),
    ("branch", record.branch = current.branch),
    ("original_ref", record.originalRef = current.originalRef),
    ("base_sha", record.baseSha = current.baseSha),
    ("entered_at", record.enteredAt = current.enteredAt),
    ("paired_project_base_sha", record.pairedProjectBaseSha = current.pairedProjectBaseSha),
    ("input_topology_digest", record.inputTopologyDigest = current.inputTopologyDigest),
    ("input_paths", record.inputPaths = current.inputPaths),
    ("project_snapshot", record.projectSnapshot = current.projectSnapshot)]

def changedCreationFields (record current : GoalRecord) : List String :=
  ((record.creationFields current).filter (!·.2)).map (·.1)

/-- Two records agree on every field fixed at creation. -/
structure SameCreation (record current : GoalRecord) : Prop where
  id : record.id = current.id
  worktree : record.worktree = current.worktree
  branch : record.branch = current.branch
  originalRef : record.originalRef = current.originalRef
  baseSha : record.baseSha = current.baseSha
  enteredAt : record.enteredAt = current.enteredAt
  pairedProjectBaseSha : record.pairedProjectBaseSha = current.pairedProjectBaseSha
  inputTopologyDigest : record.inputTopologyDigest = current.inputTopologyDigest
  inputPaths : record.inputPaths = current.inputPaths
  projectSnapshot : record.projectSnapshot = current.projectSnapshot

theorem sameCreation_of_unchanged {record current : GoalRecord}
    (h : record.changedCreationFields current = []) : record.SameCreation current := by
  have hall : ∀ field ∈ record.creationFields current, field.2 = true := by
    intro field hfield
    by_contra hchanged
    have hmem : field.1 ∈ record.changedCreationFields current :=
      List.mem_map_of_mem (List.mem_filter.mpr ⟨hfield, by simpa using hchanged⟩)
    rw [h] at hmem
    cases hmem
  simp only [creationFields, List.forall_mem_cons, decide_eq_true_eq] at hall
  obtain ⟨hid, hworktree, hbranch, href, hbase, hentered, hpaired, htopology, hinputs, hsnapshot,
    -⟩ := hall
  exact ⟨hid, hworktree, hbranch, href, hbase, hentered, hpaired, htopology, hinputs, hsnapshot⟩

/-- Why a record would not load back; `none` when it would. -/
def defect (record : GoalRecord) : Option String :=
  if record.revision = 0 then some "record.revision must be a positive integer"
  else if record.protectedDigest.isNone ≠ record.protectedHeadDigest.isNone then
    some "record.protected_head_digest must be null exactly when record.protected_digest is null"
  else if record.revision < record.publicationFloor then
    some "publication_floor must be within record revisions"
  else if record.goals.any fun goal => record.revision < goal.specRevision then
    some "record.goals have specification revisions newer than the record"
  else if record.testRunResolutions.keys.any fun key =>
      !(record.goals.any fun goal => goal.spec.key = key) then
    some "test_run_resolutions name no Goal"
  else none

/-- The record itself when it would load back. -/
def validate (record : GoalRecord) : Except StoreError GoalRecord :=
  match record.defect with
  | some reason => .error (.recordFormat reason)
  | none => .ok record

theorem validate_eq_ok {record valid : GoalRecord} :
    record.validate = .ok valid ↔ record.defect = none ∧ valid = record := by
  unfold validate
  cases h : record.defect with
  | some reason => simp
  | none => simp [eq_comm]

/-- Why `record` may not replace the frozen Test Runs of `current`; empty when it may. -/
def frozenRunViolation (presentation : GoalSpec → String) (current record : GoalRecord) :
    String :=
  let violations := current.goals.map fun goal =>
    match current.testRunResolution goal.spec.key with
    | none => ""
    | some before =>
      if goal ∉ record.goals then ""
      else match record.testRunResolution goal.spec.key with
        | none => "the frozen Test Runs of Goal " ++ presentation goal.spec ++ " cannot be removed"
        | some after => resolutionUpdateViolation (presentation goal.spec) before after
  (violations.find? (· ≠ "")).getD ""

/-! ## Publication -/

/-- The keys that two of the Goals of an entry share. -/
def repeatedKeys (goals : List GoalSpec) : List String :=
  let keys := goals.map GoalSpec.key
  (keys.filter fun key => 1 < keys.count key).dedup.insertionSort (· ≤ ·)

/-- The record of a new entry: every translated Goal at revision 1, no key twice. -/
def enter (record : GoalRecord) (goals : List GoalSpec) : Except StoreError GoalRecord :=
  if repeatedKeys goals ≠ [] then .error (.duplicateKeys (repeatedKeys goals))
  else .ok { record with goals := goals.map fun goal => ⟨goal, 1⟩ }

theorem nodup_of_repeatedKeys {goals : List GoalSpec} (h : repeatedKeys goals = []) :
    (goals.map GoalSpec.key).Nodup := by
  apply List.nodup_iff_count_le_one.mpr
  intro key
  by_contra hrepeated
  have hmem : key ∈ goals.map GoalSpec.key := List.count_pos_iff.mp (by omega)
  have hkey : key ∈ repeatedKeys goals := by
    simp only [repeatedKeys, List.mem_insertionSort, List.mem_dedup, List.mem_filter]
    exact ⟨hmem, by simpa using not_le.mp hrepeated⟩
  rw [h] at hkey
  cases hkey

/-- Publish a new entering record at revision 1; nothing is published yet. -/
def create (record : GoalRecord) : Except StoreError GoalRecord :=
  if record.state ≠ .entering ∨ record.revision ≠ 0 then .error .notEntering
  else validate { record with revision := 1 }

/-- Replace `current` with `record` if it is still at the revision the update read. -/
def save (presentation : GoalSpec → String) (current record : GoalRecord) :
    Except StoreError GoalRecord :=
  if current.revision ≠ record.revision then
    .error (.staleRevision current.revision record.revision)
  else if record.state ∉ allowedTransitions current.state then
    .error (.forbiddenTransition current.state record.state)
  else if record.publicationFloor < current.publicationFloor then .error .publicationFence
  else if record.changedCreationFields current ≠ [] then
    .error (.creationFields (record.changedCreationFields current))
  else
    let violation := frozenRunViolation presentation current record
    if violation ≠ "" then .error (.frozenRuns violation)
    else validate { record with revision := current.revision + 1 }

/-- What a successful save wrote, and what it checked. -/
theorem save_eq_ok {presentation : GoalSpec → String} {current record saved : GoalRecord}
    (h : save presentation current record = .ok saved) :
    saved = { record with revision := current.revision + 1 } ∧
      current.revision = record.revision ∧
      record.state ∈ allowedTransitions current.state ∧
      current.publicationFloor ≤ record.publicationFloor ∧
      record.SameCreation current ∧ saved.defect = none := by
  unfold save at h
  split_ifs at h with hrevision hstate hfloor hcreation
  simp only at h
  split_ifs at h with hviolation
  obtain ⟨hdefect, rfl⟩ := validate_eq_ok.mp h
  exact ⟨rfl, not_not.mp hrevision, hstate, not_lt.mp hfloor,
    sameCreation_of_unchanged (not_not.mp hcreation), hdefect⟩

/-! ## The updates of the lifecycle -/

/-- One update that a caller of the store computes from a record it loaded. -/
inductive Update where
  | branchCreated
  | protectedInputs (paths : List String) (digest headDigest : String) (declared : Option String)
  | activated
  | entryFailed (failure endedAt : String)
  | testRunsResolved (frozen : Dict String TestRunResolution)
  | finishing (validatedHead packageDigest attemptDigest operation : String)
  | finished (endedAt : String)
  | revalidation (cutoff : Option Nat)
  | abandoned (endedAt : String) (quote : Option String) (operation : String)

/-- The record an update asks the store to save. -/
def updated (record : GoalRecord) : Update → GoalRecord
  | .branchCreated => { record with branchCreated := true }
  | .protectedInputs paths digest headDigest declared =>
    { record with
      protectedPaths := paths
      protectedDigest := some digest
      protectedHeadDigest := some headDigest
      declaredProtectedInputs := declared }
  | .activated => { record with state := .active }
  | .entryFailed failure endedAt =>
    { record with state := .failed, failure := some failure, endedAt := some endedAt }
  | .testRunsResolved frozen => { record with testRunResolutions := frozen }
  | .finishing validatedHead packageDigest attemptDigest operation =>
    { record with
      state := .finishing
      validatedHead := some validatedHead
      packageDigest := some ("sha256:" ++ packageDigest)
      finishAttemptDigest := some ("sha256:" ++ attemptDigest)
      publicationFloor := record.revision + 1
      finishOperation := some operation }
  | .finished endedAt => { record with state := .finished, endedAt := some endedAt }
  | .revalidation cutoff =>
    { record with
      state := .active
      publicationFloor := max record.publicationFloor (cutoff.getD (record.revision + 1)) }
  | .abandoned endedAt quote operation =>
    { record with
      state := .abandoned
      endedAt := some endedAt
      publicationFloor := record.revision + 1
      endInstructionQuote := quote
      abandonOperation := some operation }

/-- No update of the lifecycle touches the Goals or their revisions. -/
@[simp] theorem updated_goals (record : GoalRecord) (update : Update) :
    (record.updated update).goals = record.goals := by
  cases update <;> rfl

@[simp] theorem updated_revision (record : GoalRecord) (update : Update) :
    (record.updated update).revision = record.revision := by
  cases update <;> rfl

end GoalRecord

end Booley.Goals
