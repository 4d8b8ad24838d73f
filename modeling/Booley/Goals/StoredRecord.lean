import Booley.Goals.Publication
import Booley.Goals.RecordParts

/-!
# The Goal Record as persisted

The whole content of `record.json`: its JSON form, the strict reader, and the checks a record
passes before it is published and after it was read. The reader takes the fields that `validate`
checks as they stand, so a record holds them as JSON values.
-/
namespace Booley.Goals

open Booley.Lib Booley.TestRuns

def goalStateOfText : String → Option GoalState
  | "entering" => some .entering
  | "active" => some .active
  | "finishing" => some .finishing
  | "finished" => some .finished
  | "abandoned" => some .abandoned
  | "failed" => some .failed
  | _ => none

/-! ## Fields -/

/-- Fields fixed when the record is created. -/
structure IdentityFields where
  id : String
  revision : Json
  state : GoalState
  worktree : WorktreeIdentity
  worktreePath : String
  branch : String
  originalRef : String
  baseSha : Json
  branchCreated : Bool
  sessionKey : Option String
  enteredAt : Json
  pairedProjectBaseSha : Json
deriving DecidableEq

/-- Fields that entry, Goal changes, and Finish update. -/
structure LifecycleFields where
  endedAt : Json
  goals : List StoredGoal
  goalsetsUsed : List String
  defaultSkipped : Bool
  skipReason : Option String
  protectedDigest : Json
  protectedPaths : List String
  protectedHeadDigest : Json
  declaredProtectedInputs : Option DeclaredCapture
  validatedHead : Json
  packageDigest : Json
  finishAttemptDigest : Json
  failure : Option String
  inputTopologyDigest : Json
  inputPaths : Json.Fields
  projectSnapshot : Option Json.Fields
  publicationFloor : Json
  finishOperation : Option String
  abandonOperation : Json
  endInstructionQuote : Option String
  testRunResolutions : Resolutions
deriving DecidableEq

/-- The persisted state of one Goal Mode. -/
structure StoredRecord extends IdentityFields, LifecycleFields
deriving DecidableEq

/-! ## The JSON form -/

def IdentityFields.fields (identity : IdentityFields) : Json.Fields :=
  [("id", .text identity.id), ("revision", identity.revision),
    ("state", .text identity.state.value), ("worktree", identity.worktree.toJson),
    ("worktree_path", .text identity.worktreePath), ("branch", .text identity.branch),
    ("original_ref", .text identity.originalRef), ("base_sha", identity.baseSha),
    ("branch_created", .flag identity.branchCreated),
    ("session_key", optText identity.sessionKey), ("entered_at", identity.enteredAt),
    ("paired_project_base_sha", identity.pairedProjectBaseSha)]

def captureJson : Option DeclaredCapture → Json
  | none => .null
  | some capture => capture.toJson

def LifecycleFields.fields (lifecycle : LifecycleFields) : Json.Fields :=
  [("ended_at", lifecycle.endedAt), ("goals", .list (lifecycle.goals.map StoredGoal.toJson)),
    ("goalsets_used", .list (lifecycle.goalsetsUsed.map .text)),
    ("default_skipped", .flag lifecycle.defaultSkipped),
    ("skip_reason", optText lifecycle.skipReason),
    ("protected_digest", lifecycle.protectedDigest),
    ("protected_paths", .list (lifecycle.protectedPaths.map .text)),
    ("protected_head_digest", lifecycle.protectedHeadDigest),
    ("declared_protected_inputs", captureJson lifecycle.declaredProtectedInputs),
    ("validated_head", lifecycle.validatedHead), ("package_digest", lifecycle.packageDigest),
    ("finish_attempt_digest", lifecycle.finishAttemptDigest),
    ("failure", optText lifecycle.failure),
    ("input_topology_digest", lifecycle.inputTopologyDigest),
    ("input_paths", .object lifecycle.inputPaths),
    ("project_snapshot", optObject lifecycle.projectSnapshot),
    ("publication_floor", lifecycle.publicationFloor),
    ("finish_operation", optText lifecycle.finishOperation),
    ("abandon_operation", lifecycle.abandonOperation),
    ("end_instruction_quote", optText lifecycle.endInstructionQuote),
    ("test_run_resolutions", resolutionsToJson lifecycle.testRunResolutions)]

def recordSchemaVersion : Int := 1

namespace StoredRecord

def fields (record : StoredRecord) : Json.Fields :=
  ("schema", .number recordSchemaVersion) ::
    (record.toIdentityFields.fields ++ record.toLifecycleFields.fields)

def toJson (record : StoredRecord) : Json := .object record.fields

/-- The fields of a record, and its schema. -/
def fieldNames : List String :=
  ["schema", "id", "revision", "state", "worktree", "worktree_path", "branch", "original_ref",
    "base_sha", "branch_created", "session_key", "entered_at", "paired_project_base_sha",
    "ended_at", "goals", "goalsets_used", "default_skipped", "skip_reason", "protected_digest",
    "protected_paths", "protected_head_digest", "declared_protected_inputs", "validated_head",
    "package_digest", "finish_attempt_digest", "failure", "input_topology_digest", "input_paths",
    "project_snapshot", "publication_floor", "finish_operation", "abandon_operation",
    "end_instruction_quote", "test_run_resolutions"]

/-- Fields every `record.json` of this schema version carries. -/
def recordKeys : List String :=
  ["schema", "id", "revision", "state", "worktree", "worktree_path", "branch", "original_ref",
    "base_sha", "entered_at", "input_topology_digest", "input_paths", "protected_head_digest"]

end StoredRecord

/-! ## Reading -/

section Readers

variable (mapping : Json.Fields) (name path : String)

/-- `mapping.get(name, default)`. -/
def fieldOr (default : Json) : Json := (mapping.get name).getD default

def textField : Except RecordRefusal String :=
  (recordText (fieldOf mapping name) path).mapError .value

def optTextField : Except RecordRefusal (Option String) :=
  (recordOptText (fieldOf mapping name) path).mapError .value

def flagField : Except RecordRefusal Bool :=
  (recordFlag (fieldOr mapping name (.flag false)) path).mapError .value

def textsField : Except RecordRefusal (List String) :=
  (recordTexts (fieldOr mapping name (.list [])) path).mapError .value

end Readers

def identityFields (mapping : Json.Fields) : Except RecordRefusal IdentityFields := do
  let stateName ← textField mapping "state" "record.state"
  match goalStateOfText stateName with
  | none => .error (.unknownState stateName)
  | some state => do
    let id ← textField mapping "id" "record.id"
    let worktree ← WorktreeIdentity.fromJson (fieldOf mapping "worktree") "record.worktree"
    let worktreePath ← textField mapping "worktree_path" "record.worktree_path"
    let branch ← textField mapping "branch" "record.branch"
    let originalRef ← textField mapping "original_ref" "record.original_ref"
    let branchCreated ← flagField mapping "branch_created" "record.branch_created"
    let sessionKey ← optTextField mapping "session_key" "record.session_key"
    .ok {
      id, state, worktree, worktreePath, branch, originalRef, branchCreated, sessionKey
      revision := fieldOf mapping "revision"
      baseSha := fieldOf mapping "base_sha"
      enteredAt := fieldOf mapping "entered_at"
      pairedProjectBaseSha := fieldOf mapping "paired_project_base_sha" }

section Lifecycle

variable [RuntimeTexts] [InputDigests]

def goalsField (mapping : Json.Fields) : Except RecordRefusal (List StoredGoal) :=
  (do
    let items ← recordList (fieldOr mapping "goals" (.list [])) "record.goals"
    recordItems StoredGoal.fromJson "record.goals" 0 items).mapError .value

def recordDeclaredInputs (raw : Json) : Except RecordRefusal (Option DeclaredCapture) :=
  if raw = .null then .ok none
  else some <$> (DeclaredCapture.fromJson raw).mapError .capture

def recordResolutions (raw : Json) : Except RecordRefusal Resolutions :=
  (resolutionsFromJson raw).mapError .resolutions

def lifecycleFields (mapping : Json.Fields) : Except RecordRefusal LifecycleFields := do
  let goals ← goalsField mapping
  let goalsetsUsed ← textsField mapping "goalsets_used" "record.goalsets_used"
  let defaultSkipped ← flagField mapping "default_skipped" "record.default_skipped"
  let skipReason ← optTextField mapping "skip_reason" "record.skip_reason"
  let protectedPaths ← textsField mapping "protected_paths" "record.protected_paths"
  let declaredProtectedInputs ← recordDeclaredInputs (fieldOf mapping "declared_protected_inputs")
  let failure ← optTextField mapping "failure" "record.failure"
  let inputPaths ← parseBindings (fieldOf mapping "input_paths")
  let projectSnapshot ← recordProjectSnapshot (fieldOf mapping "project_snapshot")
  let finishOperation ← optTextField mapping "finish_operation" "finish_operation"
  let endInstructionQuote ← optTextField mapping "end_instruction_quote" "end_instruction_quote"
  let testRunResolutions ← recordResolutions (fieldOr mapping "test_run_resolutions" (.object []))
  .ok {
    goals, goalsetsUsed, defaultSkipped, skipReason, protectedPaths, declaredProtectedInputs
    failure, inputPaths, projectSnapshot, finishOperation, endInstructionQuote, testRunResolutions
    endedAt := fieldOf mapping "ended_at"
    protectedDigest := fieldOf mapping "protected_digest"
    protectedHeadDigest := fieldOf mapping "protected_head_digest"
    validatedHead := fieldOf mapping "validated_head"
    packageDigest := fieldOf mapping "package_digest"
    finishAttemptDigest := fieldOf mapping "finish_attempt_digest"
    inputTopologyDigest := fieldOf mapping "input_topology_digest"
    publicationFloor := fieldOr mapping "publication_floor" (.number 0)
    abandonOperation := fieldOf mapping "abandon_operation" }

end Lifecycle

/-! ## The checks of a record -/

namespace StoredRecord

/-- The keys of resolutions that name no Goal. -/
def orphans (record : StoredRecord) : List String :=
  lacking record.testRunResolutions.keys (record.goals.map fun goal => goal.spec.key)

def checkCommits (record : StoredRecord) : Except FormatError Unit := do
  let _ ← recordCommit record.baseSha "record.base_sha"
  let _ ← recordOptional recordCommit record.pairedProjectBaseSha "record.paired_project_base_sha"
  let _ ← recordOptional recordCommit record.validatedHead "record.validated_head"
  .ok ()

def checkTimestamps (record : StoredRecord) : Except FormatError Unit := do
  let _ ← recordTimestamp record.enteredAt "record.entered_at"
  let _ ← recordOptional recordTimestamp record.endedAt "record.ended_at"
  .ok ()

def checkDigests (record : StoredRecord) : Except FormatError Unit := do
  let _ ← recordOptional recordDigest record.protectedDigest "record.protected_digest"
  let _ ← recordOptional recordDigest record.protectedHeadDigest "record.protected_head_digest"
  let _ ← recordOptional recordDigest record.packageDigest "record.package_digest"
  let _ ← recordOptional recordDigest record.finishAttemptDigest "record.finish_attempt_digest"
  let _ ← recordDigest record.inputTopologyDigest "input_topology_digest"
  .ok ()

/-- Check mutable record value invariants before publication and after decoding. -/
def validate (record : StoredRecord) : Except RecordRefusal Unit := do
  let revision ← (recordPositiveInt record.revision "record.revision").mapError .value
  let floor ← (recordNonnegativeInt record.publicationFloor "publication_floor").mapError .value
  record.checkCommits.mapError .value
  record.checkTimestamps.mapError .value
  record.checkDigests.mapError .value
  if (record.protectedDigest == .null) != (record.protectedHeadDigest == .null) then
    .error .protectedDigests
  else do
    let _ ← (recordOptional requireUuid4 record.abandonOperation "abandon_operation").mapError
      .value
    if revision < floor then .error .publicationFloor
    else if record.goals.any fun goal => revision < goal.specRevision then .error .staleGoals
    else if !record.orphans.isEmpty then .error (.orphans record.orphans)
    else .ok ()

/-- Parse `record.json` content. -/
def fromJson [RuntimeTexts] [InputDigests] (raw : Json) : Except RecordRefusal StoredRecord := do
  let mapping ← (recordMapping raw "record").mapError .value
  let unknown := lacking (mapping.map Prod.fst) fieldNames
  if !unknown.isEmpty then .error (.unknownFields unknown)
  else do
    (requireKeys mapping recordKeys "record" false).mapError .value
    let schema ← (recordPositiveInt (fieldOf mapping "schema") "record.schema").mapError .value
    if schema ≠ recordSchemaVersion then .error (.schema schema)
    else do
      let identity ← identityFields mapping
      let lifecycle ← lifecycleFields mapping
      let record : StoredRecord := ⟨identity, lifecycle⟩
      record.validate
      .ok record

end StoredRecord

end Booley.Goals
