import Booley.Evidence.Ledger
import Booley.Lib.Runs

/-!
# An append and its readers

One process appends a batch of changes; any number of readers list and read the same directories
between its steps, and it can die between any two of them.
-/
namespace Booley.Evidence

open Booley.Lib Json Booley.Goals

/-! ## The appending process -/

/-- Where the code of `record_changes` stands. -/
inductive AppendStage
  | reserving (todo : List (CriterionChange Fields)) (refs : List EvidenceRef)
  /-- the directory is made; about to build and encode the payload -/
  | building (sequence : Nat) (change : CriterionChange Fields)
    (todo : List (CriterionChange Fields)) (refs : List EvidenceRef)
  | publishing (sequence : Nat) (change : CriterionChange Fields) (payload : Fields)
    (todo : List (CriterionChange Fields)) (refs : List EvidenceRef)
  | returned (refs : List EvidenceRef)
  /-- an error was raised, or the process died -/
  | failed

/-- The next step of `record_changes`; `yes` says that the operation succeeds. -/
def appendStep (scope : EvidenceScope) (call : AppendCall) (root : List EvidenceDirectory)
    (yes : Bool) : AppendStage → List EvidenceDirectory × AppendStage
  | .reserving [] refs => (root, .returned refs)
  | .reserving (change :: todo) refs =>
    match if yes then nextSequence root else none with
    | some sequence =>
      (root ++ [⟨sequence, call.transaction, none⟩], .building sequence change todo refs)
    | none => (root, .failed)
  -- the payload may hold a number that has no canonical text
  | .building sequence change todo refs =>
    match if yes then changePayload scope call sequence change else none with
    | some payload => (root, .publishing sequence change payload todo refs)
    | none => (root, .failed)
  | .publishing sequence change payload todo refs =>
    if yes then
      (publish root sequence call.transaction payload,
        .reserving todo (refs ++ [.of sequence change]))
    else (root, .failed)
  | .returned refs => (root, .returned refs)
  | .failed => (root, .failed)

/-! ## Readers -/

/-- The transactions that the state of a reader selects, and the identity it reads under. -/
structure LedgerReader where
  selected : List String
  identity : Fields
  nodup : selected.Nodup

/-- Where the code of `validated_evidence_records` stands. -/
inductive ReadStage
  | idle
  | selecting (todo : List String) (records : List Fields)
  /-- the directories of a transaction are listed -/
  | legacy (transaction : String) (sequences : List Nat) (found : List Fields)
    (todo : List String) (records : List Fields)
  /-- the plain directories are listed -/
  | plain (sequences : List Nat) (records : List Fields)
  | done (outcome : Except LedgerError (List Fields))

/-- The directory whose record is read next. -/
def ReadStage.next? : ReadStage → Option (Nat × Option String)
  | .legacy transaction (sequence :: _) _ _ _ => some (sequence, some transaction)
  | .plain (sequence :: _) _ => some (sequence, none)
  | _ => none

/-- The next step of a reader; a directory may be listed in any `order`. -/
def readStep (codec : EvidenceIdentityCodec) (commits : Commits) (root : List EvidenceDirectory)
    (identity : Fields) (order : List Nat) : ReadStage → ReadStage
  | .selecting (transaction :: todo) records =>
    match commits transaction with
    | some entries =>
      match committedRecords root transaction entries with
      | .ok found => .selecting todo (records ++ found)
      | .error refusal => .done (.error refusal)
    | none =>
      if order.isPerm (listed root (some transaction)) then
        .legacy transaction order [] todo records
      else .selecting (transaction :: todo) records
  | .selecting [] records =>
    if order.isPerm (listed root none) then .plain order records else .selecting [] records
  | .legacy transaction (sequence :: rest) found todo records =>
    match readV1 root (some transaction) sequence with
    | .ok payload => .legacy transaction rest (found ++ [payload]) todo records
    | .error refusal => .done (.error refusal)
  | .legacy _ [] found todo records =>
    if found.isEmpty then .done (.error .noEvidence)
    else .selecting todo (records ++ sortRecords found)
  | .plain (sequence :: rest) records =>
    match readV1 root none sequence with
    | .ok payload => .plain rest (records ++ [payload])
    | .error refusal => .done (.error refusal)
  | .plain [] records => .done (validateRecords codec identity records)
  | .idle => .idle
  | .done outcome => .done outcome

/-! ## All parties -/

structure LedgerWorld where
  root : List EvidenceDirectory
  append : AppendStage
  read : Nat → ReadStage

inductive LedgerEvent
  | append (yes : Bool)
  | die
  /-- a reader begins -/
  | validate (a : Nat)
  | read (a : Nat) (order : List Nat)

def LedgerWorld.setRead (world : LedgerWorld) (a : Nat) (stage : ReadStage) : LedgerWorld :=
  { world with read := fun b => if b = a then stage else world.read b }

section Steps

variable (scope : EvidenceScope) (commits : Commits) (call : AppendCall)
variable (readers : Nat → LedgerReader)

def ledgerStep (world : LedgerWorld) : LedgerEvent → LedgerWorld
  | .append yes =>
    let (root, stage) := appendStep scope call world.root yes world.append
    { world with root := root, append := stage }
  | .die => { world with append := .failed }
  | .validate a =>
    match world.read a with
    | .idle => world.setRead a (.selecting (readers a).selected [])
    | _ => world
  | .read a order =>
    world.setRead a (readStep scope.codec commits world.root (readers a).identity order
      (world.read a))

/-- `record_changes` begins on the directories of an earlier history; no reader has begun. -/
def ledgerStart (history : List EvidenceDirectory) : LedgerWorld :=
  ⟨history, .reserving call.changes [], fun _ => .idle⟩

end Steps

/-- The directories left by earlier appends and transactions, each of which took the first free
sequence. Without a record: the append died before it wrote one. -/
inductive LedgerHistory : List EvidenceDirectory → Prop
  | empty : LedgerHistory []
  | reserve {root : List EvidenceDirectory} {sequence : Nat} (transaction : Option String)
      (record : Option Fields) (h : LedgerHistory root)
      (hnext : nextSequence root = some sequence) :
      LedgerHistory (root ++ [⟨sequence, transaction, record⟩])

/-- A reader comes to no directory that is reserved and has no record yet. -/
def ReadsPublished (world : LedgerWorld) : LedgerEvent → Prop
  | .read a _ => ∀ name, (world.read a).next? = some name →
      (recordAt world.root name.1 name.2).isSome = true
  | _ => True

end Booley.Evidence
