import Booley.Goals.State
import Booley.Lib.Json
import Booley.Lib.TextOrder

/-!
# The evidence ledger

Every observation of a Criterion is one `record.json` in a directory of its own, named by a sequence
number and, for a selected transaction, by its id. A reader lists the directories, reads their
records and validates them together. An append reserves a sequence by making its directory, and
writes the record into it afterwards.
-/
namespace Booley.Evidence

open Booley.Lib Json Booley.Goals

/-! ## Directories and sequences -/

/-- A directory of the evidence root and the `record.json` in it. -/
structure EvidenceDirectory where
  sequence : Nat
  transaction : Option String
  record : Option Fields
  deriving DecidableEq

def EvidenceDirectory.named (directory : EvidenceDirectory) (sequence : Nat)
    (transaction : Option String) : Bool :=
  directory.sequence == sequence && directory.transaction == transaction

/-- The record in the directory of a name. -/
def recordAt (root : List EvidenceDirectory) (sequence : Nat) (transaction : Option String) :
    Option Fields :=
  (root.find? (·.named sequence transaction)).bind (·.record)

/-- The sequences of the directories of a transaction, or of the plain ones. -/
def listed (root : List EvidenceDirectory) (transaction : Option String) : List Nat :=
  (root.filter (·.transaction == transaction)).map (·.sequence)

def maxSequence : Nat := 1000000

/-- The first of `count` sequences that no directory uses yet. -/
def freeFrom (root : List EvidenceDirectory) : Nat → Nat → Option Nat
  | 0, _ => none
  | count + 1, sequence =>
    if root.any (·.sequence == sequence) then freeFrom root count (sequence + 1) else some sequence

/-- `_free_sequences` yields this sequence first. -/
def nextSequence (root : List EvidenceDirectory) : Option Nat := freeFrom root maxSequence 1

/-! ## The identity of Goal evidence -/

inductive LedgerError
  | corruptEvidence
  | notV1
  | noEvidence
  | corruptTransaction
  | repeatedSequence
  | invalidIdentity
  | invalidObservation
  deriving DecidableEq, Repr

/-- The fields `record_changes` writes beside the subject of the scope. -/
def recordNames : List String :=
  ["schema", "sequence", "execution_id", "purpose", "producer", "invocation_id", "role",
    "criterion", "met", "reason", "mandatory", "params", "detail", "recorded_at"]

/-- The identity rules of a scope. The subject of a record has its fields to itself. -/
structure EvidenceIdentityCodec where
  identityField : String
  appendSubject : String → Fields → Option Fields
  validateObservationIdentity : Option Json → Fields → Bool
  identityField_free : identityField ∉ recordNames ∧ identityField ∉ ["$schema", "acceptance_basis"]
  subject_nodup : ∀ {slug identity subject}, appendSubject slug identity = some subject →
    (subject.map Prod.fst).Nodup
  subject_free : ∀ {slug identity subject}, appendSubject slug identity = some subject →
    ∀ name ∈ subject.map Prod.fst, name ∉ recordNames ∧ name ∉ ["$schema", "acceptance_basis"]

structure EvidenceScope where
  purpose : String
  codec : EvidenceIdentityCodec

def goalEvidencePurpose : String := "goal_evidence"

def slugChar (c : Char) : Bool := ('a' ≤ c && c ≤ 'z') || c.isDigit

/-- Groups of lower case letters and digits with single hyphens between them. -/
def slugShaped : List Char → Bool
  | [] => false
  | [c] => slugChar c
  | '-' :: _ => false
  | c :: '-' :: rest => slugChar c && slugShaped rest
  | c :: d :: rest => slugChar c && slugShaped (d :: rest)

/-- `-YYYYMMDDTHHMMSSZ` -/
def timestampShaped : List Char → Bool
  | '-' :: rest =>
    (rest.take 8).all Char.isDigit && (rest.drop 8).take 1 == ['T'] &&
      ((rest.drop 9).take 6).all Char.isDigit && rest.drop 15 == ['Z']
  | _ => false

/-- `GOAL_ID_PATTERN` -/
def isGoalId (text : String) : Bool :=
  let chars := text.toList
  17 < chars.length && slugShaped (chars.take (chars.length - 17)) &&
    timestampShaped (chars.drop (chars.length - 17))

/-- The texts of a list of texts. -/
def textItems : List Json → Option (List String)
  | [] => some []
  | .text item :: rest => (textItems rest).map (item :: ·)
  | _ :: _ => none

def strictlySorted : List String → Bool
  | first :: second :: rest =>
    textBefore first.toList second.toList && strictlySorted (second :: rest)
  | _ => true

/-- `require_positive_int` accepts the value. -/
def positiveInt : Json → Bool
  | .number value => value.den == 1 && 0 < value.num
  | _ => false

/-- `validate_goal_identity` accepts the fields of an identity. -/
def validGoalIdentity (identity : Fields) : Bool :=
  identity.length == 4 &&
    match identity.get "purpose", identity.get "record_id", identity.get "goal_keys",
      identity.get "spec_revisions" with
    | some (.text purpose), some (.text recordId), some (.list items), some (.object revisions) =>
      purpose == goalEvidencePurpose && isGoalId recordId &&
        match textItems items with
        | none => false
        | some keys =>
          !keys.isEmpty && keys.all (· != "") && strictlySorted keys &&
            revisions.length == keys.length &&
            keys.all (fun key => (Fields.get revisions key).isSome) &&
            revisions.all (positiveInt ·.2)
    | _, _, _, _ => false

/-- `GoalIdentity.append_subject` -/
def goalSubject (slug : String) (identity : Fields) : Option Fields :=
  if validGoalIdentity identity && identity.get "record_id" == some (.text slug) then
    some [("goal_record", .text slug), ("goal_identity", .object identity)]
  else none

/-- `GoalIdentity.validate_observation_identity` -/
def validateGoalObservation (value : Option Json) (current : Fields) : Bool :=
  match value with
  | some (.object stored) =>
    validGoalIdentity stored &&
      (current.isEmpty || Fields.get stored "record_id" == current.get "record_id")
  | _ => false

theorem goalSubject_eq {slug : String} {identity subject : Fields}
    (h : goalSubject slug identity = some subject) :
    validGoalIdentity identity = true ∧ identity.get "record_id" = some (.text slug) ∧
      subject = [("goal_record", .text slug), ("goal_identity", .object identity)] := by
  simp only [goalSubject] at h
  split at h
  · rename_i hvalid
    simp only [Bool.and_eq_true, beq_iff_eq] at hvalid
    exact ⟨hvalid.1, hvalid.2, (Option.some.inj h).symm⟩
  · cases h

theorem goalField_free :
    "goal_identity" ∉ recordNames ∧ "goal_identity" ∉ ["$schema", "acceptance_basis"] := by
  decide

theorem goalSubject_nodup {slug : String} {identity subject : Fields}
    (h : goalSubject slug identity = some subject) : (subject.map Prod.fst).Nodup := by
  obtain ⟨-, -, rfl⟩ := goalSubject_eq h
  show ["goal_record", "goal_identity"].Nodup
  decide

theorem goalSubject_free {slug : String} {identity subject : Fields}
    (h : goalSubject slug identity = some subject) :
    ∀ name ∈ subject.map Prod.fst,
      name ∉ recordNames ∧ name ∉ ["$schema", "acceptance_basis"] := by
  obtain ⟨-, -, rfl⟩ := goalSubject_eq h
  intro name hname
  have hpair : name ∈ ["goal_record", "goal_identity"] := hname
  rcases List.mem_pair.mp hpair with rfl | rfl
  · decide
  · decide

def goalIdentity : EvidenceIdentityCodec where
  identityField := "goal_identity"
  appendSubject := goalSubject
  validateObservationIdentity := validateGoalObservation
  identityField_free := goalField_free
  subject_nodup := goalSubject_nodup
  subject_free := goalSubject_free

def goalScope : EvidenceScope := ⟨goalEvidencePurpose, goalIdentity⟩

/-- What a Goal Record appends is accepted by its readers. -/
theorem validateGoalObservation_subject {slug : String} {identity subject current : Fields}
    (h : goalSubject slug identity = some subject)
    (hcurrent : current = [] ∨ current.get "record_id" = some (.text slug)) :
    validateGoalObservation (subject.get "goal_identity") current = true := by
  obtain ⟨hvalid, hslug, rfl⟩ := goalSubject_eq h
  have hget : Fields.get [("goal_record", .text slug), ("goal_identity", .object identity)]
      "goal_identity" = some (.object identity) := rfl
  rw [hget]
  simp only [validateGoalObservation, hvalid, Bool.true_and, Bool.or_eq_true, beq_iff_eq, hslug]
  rcases hcurrent with rfl | hrecord
  · exact .inl rfl
  · exact .inr hrecord.symm

/-! ## Reading -/

/-- The integer that a field counts as where it is compared with one. -/
def equalsInt (value : Option Json) (number : Nat) : Bool :=
  match value with
  | some (.number held) => held == number
  | some (.flag held) => held.toNat == number
  | _ => false

/-- `_read_legacy_record`, and its callers' check that the record is of the first version. -/
def readV1 (root : List EvidenceDirectory) (transaction : Option String) (sequence : Nat) :
    Except LedgerError Fields :=
  match recordAt root sequence transaction with
  | none => .error .corruptEvidence
  | some payload =>
    if equalsInt (payload.get "sequence") sequence then
      if equalsInt (payload.get "schema") 1 && (payload.get "$schema").isNone then .ok payload
      else .error .notV1
    else .error .corruptEvidence

/-- What a sort by sequence compares. -/
def sequenceKey (payload : Fields) : Nat :=
  match payload.get "sequence" with
  | some (.number value) => value.num.toNat
  | some (.flag value) => value.toNat
  | _ => 0

def sortRecords (records : List Fields) : List Fields :=
  records.mergeSort fun first second => decide (sequenceKey first ≤ sequenceKey second)

/-- `legacy_transaction_records` -/
def legacyTransactionRecords (root : List EvidenceDirectory) (transaction : String) :
    Except LedgerError (List Fields) := do
  let found ← (listed root (some transaction)).mapM (readV1 root (some transaction))
  if found.isEmpty then .error .noEvidence else .ok (sortRecords found)

/-- The sequences and records that the verified commit of a transaction binds, if it has one. -/
abbrev Commits := String → Option (List (Nat × Fields))

/-- `_verify_commit` finds every bound record, and no other directory of the transaction. -/
def committedRecords (root : List EvidenceDirectory) (transaction : String)
    (entries : List (Nat × Fields)) : Except LedgerError (List Fields) :=
  if entries.all (fun entry => recordAt root entry.1 (some transaction) == some entry.2 &&
        equalsInt (entry.2.get "sequence") entry.1) &&
      (listed root (some transaction)).all (fun sequence => entries.any (·.1 == sequence)) then
    .ok (entries.map Prod.snd)
  else .error .corruptTransaction

/-- The records of one selected transaction. -/
def selectedRecords (commits : Commits) (root : List EvidenceDirectory) (transaction : String) :
    Except LedgerError (List Fields) :=
  match commits transaction with
  | some entries => committedRecords root transaction entries
  | none => legacyTransactionRecords root transaction

def plainLegacyRecords (root : List EvidenceDirectory) : Except LedgerError (List Fields) :=
  (listed root none).mapM (readV1 root none)

def textField (payload : Fields) (name : String) : Option String :=
  match payload.get name with
  | some (.text value) => some value
  | _ => none

def isFlag : Option Json → Bool
  | some (.flag _) => true
  | _ => false

def isObject : Option Json → Bool
  | some (.object _) => true
  | _ => false

/-- `_validate_observation` -/
def validObservation (payload : Fields) : Bool :=
  (payload.get "acceptance_basis").isNone && (textField payload "criterion").isSome &&
    ["baseline", "candidate"].any (fun role => textField payload "role" == some role) &&
    isFlag (payload.get "met") && isFlag (payload.get "mandatory") &&
    isObject (payload.get "params") && isObject (payload.get "detail")

/-- A sequence is an integer, and no flag. -/
def isSequence : Option Json → Bool
  | some (.number value) => value.den == 1
  | _ => false

/-- The last loop of `validated_evidence_records`, after the given sequences. -/
def checkRecords (codec : EvidenceIdentityCodec) (identity : Fields) :
    List Nat → List Fields → Except LedgerError Unit
  | _, [] => .ok ()
  | seen, payload :: rest =>
    if !isSequence (payload.get "sequence") || seen.contains (sequenceKey payload) then
      .error .repeatedSequence
    else if !codec.validateObservationIdentity (payload.get codec.identityField) identity then
      .error .invalidIdentity
    else if !validObservation payload then .error .invalidObservation
    else checkRecords codec identity (sequenceKey payload :: seen) rest

/-- The end of `validated_evidence_records`, on all records that were read. -/
def validateRecords (codec : EvidenceIdentityCodec) (identity : Fields) (records : List Fields) :
    Except LedgerError (List Fields) := do
  checkRecords codec identity [] (sortRecords records)
  return sortRecords records

/-- `validated_evidence_records` where nothing else happens. -/
def validatedEvidenceRecords (codec : EvidenceIdentityCodec) (commits : Commits)
    (root : List EvidenceDirectory) (selected : List String) (identity : Fields) :
    Except LedgerError (List Fields) := do
  let chosen ← selected.mapM (selectedRecords commits root)
  let plain ← plainLegacyRecords root
  validateRecords codec identity (chosen.flatten ++ plain)

/-! ## Appending -/

/-- The arguments of `record_changes`. -/
structure AppendCall where
  slug : String
  identity : Fields
  changes : List (CriterionChange Fields)
  executionId : String
  producer : String
  invocationId : String
  recordedAt : String
  transaction : Option String

structure EvidenceRef where
  sequence : Nat
  criterion : String
  role : EvidenceRole
  deriving DecidableEq

/-- `_change_role` -/
def changeRole (change : CriterionChange Fields) : EvidenceRole :=
  if change.params.get "from_state" == some (.text "fail") && !change.met then .baseline
  else .candidate

def roleText : EvidenceRole → String
  | .baseline => "baseline"
  | .candidate => "candidate"

/-- The fields of a record after its subject. -/
def observationFields (scope : EvidenceScope) (call : AppendCall)
    (change : CriterionChange Fields) : Fields :=
  [("execution_id", .text call.executionId), ("purpose", .text scope.purpose),
    ("producer", .text call.producer), ("invocation_id", .text call.invocationId),
    ("role", .text (roleText (changeRole change))), ("criterion", .text change.key),
    ("met", .flag change.met), ("reason", .text change.reason),
    ("mandatory", .flag change.mandatory), ("params", .object change.params),
    ("detail", .object change.detail), ("recorded_at", .text call.recordedAt)]

/-- Later fields of a dictionary display replace earlier ones. -/
def update (fields : Fields) (items : Fields) : Fields :=
  items.foldl (fun fields item => fields.set item.1 item.2) fields

/-- The payload of one change; the scope may refuse the identity. -/
def changePayload (scope : EvidenceScope) (call : AppendCall) (sequence : Nat)
    (change : CriterionChange Fields) : Option Fields :=
  (scope.codec.appendSubject call.slug call.identity).map fun subject =>
    update (update [("schema", .number 1), ("sequence", .number sequence)] subject)
      (observationFields scope call change)

def EvidenceRef.of (sequence : Nat) (change : CriterionChange Fields) : EvidenceRef :=
  ⟨sequence, change.key, changeRole change⟩

/-- Make the record of a directory. -/
def publish (root : List EvidenceDirectory) (sequence : Nat) (transaction : Option String)
    (payload : Fields) : List EvidenceDirectory :=
  root.map fun directory =>
    if directory.named sequence transaction then { directory with record := some payload }
    else directory

end Booley.Evidence
