import Booley.Goals.StoredValues
import Booley.Lib.CanonicalJson
import Booley.Lib.Except

/-!
# Checks of Campaign records

The checks that the decoders of Campaign records share. A check that fails refuses the record, as
one that is not intact or as one of an old format; a list or an object that is looked up in a set
raises another exception.
-/
namespace Booley.Campaigns

open Booley.Lib Booley.Lib.DataTree Booley.Goals Booley.TestRuns

/-- A value of a Campaign record. -/
abbrev Value (α : Type) := DataTree (Scalar α)

/-- The members of a document. -/
abbrev Document (α : Type) := List (String × Value α)

/-- Why a decoder returns no record. -/
inductive Refusal where
  | integrity (message : String)
  | unsupportedFormat (label schema : String)
  | uncaught (exception : String)
deriving DecidableEq

variable {α : Type}

def refuse {β : Type} (message : String) : Except Refusal β := .error (.integrity message)

/-- Refuse a record that a condition holds of. -/
def refuseIf (condition : Prop) [Decidable condition] (message : String) : Except Refusal Unit :=
  if condition then refuse message else .ok ()

theorem refuseIf_eq_ok {condition : Prop} [Decidable condition] {message : String} {done : Unit} :
    refuseIf condition message = .ok done ↔ ¬condition := by
  by_cases h : condition
  · simp [refuseIf, refuse, h]
  · simp [refuseIf, h]

/-! ## Values -/

def isNull : Value α → Bool
  | .leaf .null => true
  | _ => false

def isText (value : Value α) (text : String) : Bool :=
  match value with
  | .leaf (.text held) => held == text
  | _ => false

/-- `value in {...}`, for a set of texts. -/
def isOneOf (value : Value α) (names : List String) : Except Refusal Bool :=
  match value with
  | .leaf (.text held) => .ok (names.contains held)
  | .leaf _ => .ok false
  | .list _ | .object _ => .error (.uncaught "TypeError")

/-- `document.get(key)`, and `document[key]` of a key that is there. -/
def field (document : Document α) (key : String) : Value α :=
  (document.lookup key).getD (.leaf .null)

def requireDict (value : Value α) (name : String) : Except Refusal (Document α) :=
  match value with
  | .object fields => .ok fields
  | _ => refuse s!"{name} must be a mapping"

def requireList (value : Value α) (name : String) : Except Refusal (List (Value α)) :=
  match value with
  | .list items => .ok items
  | _ => refuse s!"{name} must be a list"

def qualifier (allowEmpty : Bool) : String :=
  if allowEmpty then "a string" else "a non-empty string"

def requireStrValue (value : Value α) (name : String) (allowEmpty : Bool) :
    Except Refusal String :=
  match value with
  | .leaf (.text held) =>
    if allowEmpty || held ≠ "" then .ok held else refuse s!"{name} must be {qualifier allowEmpty}"
  | _ => refuse s!"{name} must be {qualifier allowEmpty}"

def requireBoolValue (value : Value α) (name : String) : Except Refusal Bool :=
  match value with
  | .leaf (.flag held) => .ok held
  | _ => refuse s!"{name} must be a boolean"

def requireInt (value : Value α) (message : String) : Except Refusal Int :=
  match value with
  | .leaf (.whole held) => .ok held
  | _ => refuse message

def requirePositiveInt (value : Value α) (name : String) : Except Refusal Int := do
  let parsed ← requireInt value s!"{name} must be a positive integer"
  if parsed ≤ 0 then refuse s!"{name} must be a positive integer" else .ok parsed

def requireNonnegativeInt (value : Value α) (name : String) : Except Refusal Int := do
  let parsed ← requireInt value s!"{name} must be a nonnegative integer"
  if parsed < 0 then refuse s!"{name} must be a nonnegative integer" else .ok parsed

/-- The first whole number that no float is near to. -/
def floatOverflow : Nat := 2 ^ 1024 - 2 ^ 970

/-- A finite number that is not negative; a whole number is turned into a float first. -/
def requireNonnegativeNumber (format : FloatFormat α) (value : Value α) (name : String) :
    Except Refusal Unit :=
  match value with
  | .leaf (.whole held) =>
    if floatOverflow ≤ held.natAbs then .error (.uncaught "OverflowError")
    else if held < 0 then refuse s!"{name} must be a finite nonnegative number"
    else .ok ()
  | .leaf (.float held) =>
    if format.value held < 0 then refuse s!"{name} must be a finite nonnegative number" else .ok ()
  | _ => refuse s!"{name} must be a finite number"

def requireDigest (value : Value α) (name : String) : Except Refusal String :=
  match value with
  | .leaf (.text held) =>
    if isSha256Digest held then .ok held else refuse s!"{name} must be a sha256 digest"
  | _ => refuse s!"{name} must be a sha256 digest"

def requireUuid (value : Value α) (name : String) : Except Refusal String :=
  match value with
  | .leaf (.text held) =>
    if isUuid4 held then .ok held else refuse s!"{name} must be lowercase UUIDv4"
  | _ => refuse s!"{name} must be lowercase UUIDv4"

/-- A value that may be null is read when it is not. -/
def unlessNull {β : Type} (value : Value α) (read : Except Refusal β) :
    Except Refusal (Option β) :=
  if isNull value then .ok none else some <$> read

/-! ## Texts and containers -/

def maxPathBytes : Nat := 1024
def maxStringBytes : Nat := 4096
def maxCommandBytes : Nat := 16 * 1024
def maxObservationTestBytes : Nat := 512
def maxDetailBytes : Nat := 2 * 1024
def maxJsonDepth : Nat := 64
def maxListItems : Nat := 100000
def maxObservations : Nat := 4000
def maxEvidenceRefs : Nat := 4096
def maxAttemptsPerItem : Nat := 10000
def recordMaxBytes : Nat := 1024 * 1024

def boundedString (value : Value α) (name : String) (limit : Nat) (allowEmpty : Bool) :
    Except Refusal String := do
  let parsed ← requireStrValue value name allowEmpty
  if limit < parsed.utf8ByteSize then refuse s!"{name} exceeds {limit}-byte ceiling"
  else .ok parsed

/-- `item:[0-9]{4}:[0-9a-f]{16}`. -/
def isWorkItemId (text : String) : Bool :=
  match text.toList.splitOn ':' with
  | [first, ordinal, digest] =>
    first = ['i', 't', 'e', 'm'] && ordinal.length = 4 && ordinal.all Char.isDigit &&
      digest.length = 16 && digest.all isLowerHex
  | _ => false

def requireWorkItemId (value : Value α) : Except Refusal String := do
  let parsed ← boundedString value "work_item_id" maxStringBytes false
  if isWorkItemId parsed then .ok parsed else refuse "work_item_id is invalid"

/-- A path that starts with a drive letter. -/
def hasDrive (path : List Char) : Bool :=
  match path with
  | letter :: ':' :: _ => letter.isAlpha
  | _ => false

/-- A normalized, contained, portable relative path. -/
def validateRelativePath (value : Value α) : Except Refusal String := do
  let parsed ← requireStrValue value "path" false
  if maxPathBytes < parsed.utf8ByteSize then refuse "path must be nonempty and at most 1 KiB"
  else if parsed.toList.contains backslash || parsed.toList.head? = some '/' ||
      hasDrive parsed.toList then
    refuse "path must be separator-normalized and relative"
  else if (parsed.toList.splitOn '/').any fun part => part = [] || part = ['.'] || part = ['.', '.']
  then refuse "path must be contained and normalized"
  else .ok parsed

/-- The keys are exactly the named ones. -/
def sameKeys (document : Document α) (names : List String) : Bool :=
  names.all (fun name => (document.map Prod.fst).contains name) &&
    document.all fun member => names.contains member.1

def exactObject (value : Value α) (names : List String) (name : String) :
    Except Refusal (Document α) := do
  let decoded ← requireDict value name
  if sameKeys decoded names then .ok decoded else refuse s!"{name} must have exact fields {names}"

def exactList (value : Value α) (name : String) (ceiling : Nat) :
    Except Refusal (List (Value α)) := do
  let decoded ← requireList value name
  if ceiling < decoded.length then refuse s!"{name} must be a list capped at {ceiling}"
  else .ok decoded

/-- Check the items of a list from one place on. -/
def checkItems {β : Type} (check : Value α → Nat → Except Refusal β) :
    List (Value α) → Nat → Except Refusal (List β)
  | [], _ => .ok []
  | item :: items, index => do
    let first ← check item index
    let rest ← checkItems check items (index + 1)
    .ok (first :: rest)

mutual

/-- `_validate_json`: the ceilings of strings, lists and nesting. -/
def validateJson : Value α → Nat → Except Refusal Unit
  | .leaf scalar, depth =>
    if maxJsonDepth < depth then refuse "JSON nesting exceeds resource ceiling"
    else
      match scalar with
      | .text held =>
        if maxCommandBytes < held.utf8ByteSize then refuse "string exceeds resource ceiling"
        else .ok ()
      | .null | .flag _ | .whole _ | .float _ => .ok ()
  | .list items, depth =>
    if maxJsonDepth < depth then refuse "JSON nesting exceeds resource ceiling"
    else if maxListItems < items.length then refuse "list exceeds resource ceiling"
    else validateJsonItems items (depth + 1)
  | .object members, depth =>
    if maxJsonDepth < depth then refuse "JSON nesting exceeds resource ceiling"
    else validateJsonMembers members (depth + 1)

def validateJsonItems : List (Value α) → Nat → Except Refusal Unit
  | [], _ => .ok ()
  | item :: items, depth => do
    validateJson item depth
    validateJsonItems items depth

def validateJsonMembers : List (String × Value α) → Nat → Except Refusal Unit
  | [], _ => .ok ()
  | (_, value) :: members, depth => do
    validateJson value depth
    validateJsonMembers members depth

end

def boundedCanonicalValue (format : FloatFormat α) (value : Value α) (name : String)
    (limit : Nat) : Except Refusal Unit := do
  validateJson value 0
  if limit < (canonicalJsonBytes format value).length - 1 then
    refuse s!"{name} exceeds {limit}-byte ceiling"
  else .ok ()

/-! ## References -/

def evidenceFields : List String := ["path", "bytes", "sha256", "kind", "owner"]

def validateEvidenceMembers (reference : Document α) (name : String) : Except Refusal Unit := do
  let path ← boundedString (field reference "path") s!"{name}.path" maxStringBytes false
  let _ ← validateRelativePath (α := α) (.leaf (.text path))
  let _ ← requireNonnegativeInt (field reference "bytes") s!"{name}.bytes"
  let _ ← requireDigest (field reference "sha256") s!"{name}.sha256"
  let _ ← boundedString (field reference "kind") s!"{name}.kind" maxStringBytes false
  let _ ← requireUuid (field reference "owner") s!"{name}.owner"
  .ok ()

def validateEvidenceRef (value : Value α) (name : String) : Except Refusal (Document α) := do
  let reference ← exactObject value evidenceFields name
  validateEvidenceMembers reference name
  .ok reference

def validateEvidenceList (value : Value α) (name : String) : Except Refusal Unit := do
  let references ← exactList value name maxEvidenceRefs
  let _ ← checkItems (fun reference index => validateEvidenceRef reference s!"{name}[{index}]")
    references 0
  .ok ()

/-! ## Documents -/

/-- What is particular to one type of record, and what its checks read from a document. -/
structure RecordSpec (α β : Type) where
  schema : String
  fields : List String
  limit : Nat
  validate : Document α → Except Refusal β

def retiredSchemas : List (String × String) :=
  [("booley.simulation-campaign-manifest/v1", "Simulation Campaign manifest"),
    ("booley.simulation-campaign-manifest/v2", "Simulation Campaign manifest"),
    ("booley.simulation-result/v2", "Simulation Result"),
    ("booley.simulation-projection/v2", "Simulation projection")]

def raiseIfRetired (document : Document α) : Except Refusal Unit :=
  match field document "$schema" with
  | .leaf (.text schema) =>
    match retiredSchemas.lookup schema with
    | some label => .error (.unsupportedFormat label schema)
    | none => .ok ()
  | _ => .ok ()

/-- What is used of the standard library: `json.loads` of bytes in UTF-8, and whether
`datetime.fromisoformat` reads a text. -/
structure Readers (α : Type) where
  loads : List UInt8 → Option (Value α)
  readsTimestamp : String → Bool


def validateTimestamp (readers : Readers α) (value : Value α) (key : String) :
    Except Refusal Unit := do
  let parsed ← boundedString value key maxStringBytes false
  if !readers.readsTimestamp parsed then refuse s!"{key} must be canonical UTC RFC3339"
  else if parsed.toList.contains '.' || parsed.toList.getLast? ≠ some 'Z' then
    refuse s!"{key} must be canonical UTC RFC3339"
  else .ok ()

def validateCommon (readers : Readers α) (document : Document α) : Except Refusal Unit := do
  let _ ← unlessNull (field document "campaign_id")
    (requireUuid (field document "campaign_id") "campaign_id")
  for key in ["manifest_sha256", "workload_sha256"] do
    let _ ← unlessNull (field document key) (requireDigest (field document key) key)
  for key in ["created_at", "started_at", "finished_at"] do
    let _ ← unlessNull (field document key) (validateTimestamp readers (field document key) key)

def loadDocument (readers : Readers α) (raw : List UInt8) : Except Refusal (Document α) :=
  match readers.loads raw with
  | some value => requireDict value "document"
  | none => refuse "document is not valid UTF-8 JSON"

/-- Decode the bytes of one type of record. -/
def decode {β : Type} (format : FloatFormat α) (readers : Readers α) (spec : RecordSpec α β)
    (raw : List UInt8) : Except Refusal β := do
  refuseIf (spec.limit < raw.length) s!"document exceeds {spec.limit}-byte size ceiling"
  let document ← loadDocument readers raw
  raiseIfRetired document
  refuseIf (!sameKeys document spec.fields) "document must have exact fields"
  refuseIf (!isText (field document "$schema") spec.schema) "unsupported $schema"
  validateJson (.object document) 0
  validateCommon readers document
  refuseIf (canonicalJsonBytes format (.object document) ≠ raw) "document is not canonical JSON"
  spec.validate document

/-- A decoded document passed the checks of its type. -/
theorem exists_of_decode {β : Type} {format : FloatFormat α} {readers : Readers α}
    {spec : RecordSpec α β} {raw : List UInt8} {record : β}
    (h : decode format readers spec raw = .ok record) :
    ∃ document, canonicalJsonBytes format (.object document) = raw ∧
      spec.validate document = .ok record := by
  simp only [decode, except_bind_eq_ok, refuseIf_eq_ok, not_not] at h
  obtain ⟨-, -, document, -, -, -, -, -, -, -, -, -, -, -, -, hbytes, hvalid⟩ := h
  exact ⟨document, hbytes, hvalid⟩

/-! ## Examples -/

/-- The floats 0.0 and 0.5. -/
def halves : FloatFormat Bool where
  text half := ['0', '.', if half then '5' else '0']
  value half := if half then 1 / 2 else 0
  isNumber := by
    intro half c hc
    simp only [List.mem_cons, List.not_mem_nil, or_false] at hc
    rcases hc with rfl | rfl | rfl
    · decide
    · decide
    · cases half <;> decide
  isFloat half := ⟨'.', by simp, .inl rfl⟩
  reads_back := by
    intro first second h
    cases first <;> cases second <;> simp at h <;> rfl

/-- Reads one document back from its bytes. -/
def readersOf (document : Document Bool) : Readers Bool where
  loads raw :=
    if canonicalJsonBytes halves (.object document) = raw then some (.object document) else none
  readsTimestamp text := text == "2026-01-01T00:00:00Z"

end Booley.Campaigns
