import Booley.Lib.Prog
import Booley.Goals.ProposalStore

/-!
# The apply protocol

A decision prepares a transaction of captured effects, publishes it, saves the decision that
names it, and drives its effects between the two log lines of the change. Recovery drives
what a stopped decision left. Every step below is one atomic change of the disk.
-/
namespace Booley.Goals

open Booley.Lib Booley.Lib.Prog

/-- The lifecycle files, by path. -/
abbrev Files := String → Option FileContent

/-- Everything the protocol reads and writes under one record lock. -/
structure ApplyWorld where
  files : Files
  symlinked : String → Bool
  log : List LogLine
  /-- Whether bytes of a line cut short follow the intact ones. -/
  torn : Bool
  proposals : ProposalDirectory
  /-- The transaction files, by the id in their names. -/
  applies : List ApplyTransaction

/-- Someone else changes lifecycle files, or what stands before them. -/
def ApplyWorld.edit (world : ApplyWorld) (files : Files) (symlinked : String → Bool) :
    ApplyWorld :=
  { world with files := files, symlinked := symlinked }

/-! ## What a preparation captures -/

/-- The concrete coverage and candidate policy. Its effects capture the bytes they replace. -/
structure WaiverPort where
  prepare : Files → Proposal → Decision → Except ProposalError (List FileEffect)
  rejection : Files → Proposal → Decision → Except ProposalError (List FileEffect)
  validateEffect : FileEffect → Except ProposalError Unit
  captured : ∀ files proposal decision effects, prepare files proposal decision = .ok effects →
    ∀ effect ∈ effects, effect.before = files effect.path
  rejectionCaptured : ∀ files proposal decision effects,
    rejection files proposal decision = .ok effects →
    ∀ effect ∈ effects, effect.before = files effect.path

/-- The paths of one record, and what a preparation computes from the files it reads. -/
structure ApplySource where
  recordFile : String
  stateFile : String
  freeze : FreezeSource
  waivers : Option WaiverPort
  /-- Why the change kind, the Goal state or its derivations refuse; empty when they do not. -/
  refusal : Files → GoalRecord → Proposal → String
  /-- The observations of the change, as ledger files at sequences no file has. -/
  ledger : Files → GoalRecord → Proposal → Decision → List (String × FileContent)
  /-- The Goal state with the change and its derivations. -/
  shadow : Files → GoalRecord → Proposal → Decision → FileContent
  ledger_free : ∀ files record proposal decision row,
    row ∈ ledger files record proposal decision → files row.1 = none

namespace ApplySource

/-- The waiver policy's effects of an approved change; most changes have none. -/
def waiverEffects (source : ApplySource) (files : Files) (proposal : Proposal)
    (decision : Decision) : Except ProposalError (List FileEffect) :=
  if proposal.waiver.isNone then .ok []
  else match source.waivers with
    | none => .error (.preparation "Goal waiver service is unavailable")
    | some port => port.prepare files proposal decision

/-- Every effect of an approved change but the record's own. -/
def otherEffects (source : ApplySource) (files : Files) (record : GoalRecord)
    (proposal : Proposal) (decision : Decision) (waiver : List FileEffect) : List FileEffect :=
  waiver ++
    ((source.ledger files record proposal decision).map fun row =>
      ⟨row.1, none, some row.2, .ledger⟩) ++
    [⟨source.stateFile, files source.stateFile,
      some (source.shadow files record proposal decision), .state⟩]

/-- The effects of a rejected change: the candidate it names, if any. -/
def rejectionEffects (source : ApplySource) (files : Files) (proposal : Proposal)
    (decision : Decision) : Except ProposalError (List FileEffect) :=
  if proposal.waiver.isNone then .ok []
  else match source.waivers with
    | none => .error (.preparation "Goal waiver service is unavailable")
    | some port => port.rejection files proposal decision

end ApplySource

/-- A source whose effects never name one destination twice. -/
structure ApplyEnvironment extends ApplySource where
  distinct : ∀ files record proposal decision waiver,
    toApplySource.waiverEffects files proposal decision = .ok waiver →
    (recordFile ::
      (toApplySource.otherEffects files record proposal decision waiver).map (·.path)).Nodup
  rejectionDistinct : ∀ files proposal decision effects,
    toApplySource.rejectionEffects files proposal decision = .ok effects →
    (recordFile :: effects.map (·.path)).Nodup

/-- The audit of an approved change. -/
def changeEntry (proposal : Proposal) (decision : Decision) : ChangeEntry where
  id := proposal.id
  decidedAt := decision.decidedAt
  kind := proposal.kind
  goalKey := proposal.goalKey
  before := proposal.before
  after := proposal.after
  reason := decision.reason
  approval := decision.source
  quote := decision.quote
  sessionKey := decision.sessionKey
  peerProcess := decision.peerProcess
  transactionRef := decision.transactionId

section Programs

variable [ApplyDigests]

/-- The transaction of a decision, prepared from the files as they are now. -/
def prepare (env : ApplyEnvironment) (files : Files) (record : GoalRecord) (proposal : Proposal)
    (decision : Decision) (transactionId : String) : Except ProposalError ApplyTransaction :=
  if decision.decision = .reject then do
    let effects ← env.rejectionEffects files proposal decision
    return ⟨transactionId, proposal.id, ApplyDigests.payload proposal, decision, none, effects⟩
  else if conflict proposal record ≠ "" then .error (.conflict (conflict proposal record))
  else if env.refusal files record proposal ≠ "" then
    .error (.preparation (env.refusal files record proposal))
  else do
    let waiver ← env.waiverEffects files proposal decision
    let change ← recordEffect env.recordFile record proposal env.freeze
    return ⟨transactionId, proposal.id, ApplyDigests.payload proposal, decision,
      some (changeEntry proposal decision),
      change :: env.otherEffects files record proposal decision waiver⟩

/-! ## Reads -/

def loadRecord (env : ApplyEnvironment) (world : ApplyWorld) : Except ProposalError GoalRecord :=
  match world.files env.recordFile with
  | some (.record record) => .ok record
  | _ => .error (.store .notPublished)

def loadTransaction (id : String) (world : ApplyWorld) : Except ProposalError ApplyTransaction :=
  match world.applies.find? (·.id = id) with
  | some transaction => .ok transaction
  | none => .error (.missingTransaction id)

def requirePending (view : ProposalView) (record : GoalRecord) : Except ProposalError Unit :=
  if view.closedByAbandonment.isSome ∨ view.state ≠ .pending then .error .alreadyDecided
  else if record.state ≠ .active then .error (.notActive record.state)
  else .ok ()

/-- The changes that are approved or begun, and not complete. -/
def pendingApplies (world : ApplyWorld) : Except ProposalError (List String) := do
  let log ← ChangeLog.scan world.log
  let views ← world.proposals.list
  let approved := views.filter fun view =>
    view.state = .approved && view.closedByAbandonment.isNone
  return approved.map (·.proposal.id) ++ log.interrupted.map (·.id)

def requireNoApply (world : ApplyWorld) : Except ProposalError Unit := do
  let pending ← pendingApplies world
  if pending ≠ [] then .error (.applyInterrupted pending) else .ok ()

/-- The waiver service a proposal needs. -/
def waiverLock (env : ApplyEnvironment) (proposal : Proposal) : Except ProposalError Unit :=
  if proposal.waiver.isSome ∧ env.waivers.isNone then
    .error (.preparation "Goal waiver service is unavailable for recovery")
  else .ok ()

/-- Keep the protected inputs out of what a waiver may write. -/
def validateEffects (env : ApplyEnvironment) (transaction : ApplyTransaction) :
    Except ProposalError Unit :=
  (transaction.effects.filter (·.label = .waiver)).forM fun effect =>
    match env.waivers with
    | none => .error (.preparation "Goal waiver service is unavailable")
    | some port => port.validateEffect effect

/-- Whether a transaction is the one a view's decision was saved for. -/
def validateTransaction (env : ApplyEnvironment) (view : ProposalView)
    (transaction : ApplyTransaction) : Except ProposalError Unit :=
  if transaction.proposalId ≠ view.proposal.id ∨
      transaction.payloadDigest ≠ ApplyDigests.payload view.proposal ∨
      some transaction.decision ≠ view.decision then .error .unboundTransaction
  else if view.transactionDigest ≠ some (ApplyDigests.transaction transaction) then
    .error .substitutedTransaction
  else validateEffects env transaction

/-! ## Log writes -/

/-- Drop a torn tail before the next line. -/
def prepareAppend : Prog ApplyWorld ProposalError ChangeLog := do
  let log ← require fun world => ChangeLog.scan world.log
  update fun world => { world with torn := false }
  return log

/-- Write one line; a stop inside the write leaves its start behind. -/
def appendLine (line : LogLine) : Prog ApplyWorld ProposalError Unit := do
  update fun world => { world with torn := true }
  update fun world => { world with log := world.log ++ [line], torn := false }

def appendIntent (entry : ChangeEntry) : Prog ApplyWorld ProposalError Unit := do
  let log ← prepareAppend
  if (log.applied ++ log.interrupted).any (·.id = entry.id) then .fail (.logOrder entry.id)
  else appendLine (.intent entry.id entry)

def appendApplied (id now : String) : Prog ApplyWorld ProposalError Unit := do
  let log ← prepareAppend
  if !log.interrupted.any (·.id = id) then .fail (.logOrder id)
  else appendLine (.applied id now)

/-- The intent line of a change the log has not met. -/
def ensureIntent (existing : ChangeLog.Logged) (entry : ChangeEntry) :
    Prog ApplyWorld ProposalError Unit :=
  if existing = .absent then appendIntent entry else .ret ()

/-- The applied line of a change that has only its intent. -/
def ensureApplied (entry : ChangeEntry) (now : String) : Prog ApplyWorld ProposalError Unit := do
  let logged ← require fun world =>
    ChangeLog.scan world.log >>= fun log => log.existingEntry (some entry)
  if logged ≠ .applied then appendApplied entry.id now else return ()

/-! ## Proposal writes -/

/-- Only a pending exact payload can receive a decision. -/
def saveDecision (view : ProposalView) (decision : Decision) (digest : String) :
    Prog ApplyWorld ProposalError ProposalView := do
  let current ← require fun world => world.proposals.load view.proposal.id
  if current.closedByAbandonment.isSome ∨ current.state ≠ .pending ∨
      current.proposal ≠ view.proposal then .fail .alreadyDecided
  else
    let updated := view.decided decision digest
    if !updated.sound then .fail .decisionMismatch
    else do
      update fun world => { world with proposals := world.proposals.save updated }
      return updated

/-- Reconcile completed effects with their exact human decision. -/
def finalize (view : ProposalView) (rejected : Bool) (now : String) :
    Prog ApplyWorld ProposalError ProposalView := do
  let current ← require fun world => world.proposals.load view.proposal.id
  if !rejected ∧ current.state = .applied then return current
  else if current.state ≠ (if rejected then .rejected else .approved) ∨
      current.decision ≠ view.decision ∨ current.transactionDigest ≠ view.transactionDigest then
    .fail .decisionMismatch
  else if rejected ∧ current.resolvedAt.isSome then return current
  else do
    let updated := current.finalized rejected now
    update fun world => { world with proposals := world.proposals.save updated }
    return updated

/-! ## Effects -/

def requireExpected (effect : FileEffect) : Prog ApplyWorld ProposalError Unit :=
  require fun world => effect.requireExpected (world.symlinked effect.path)
    (world.files effect.path)

/-- Check the destination again, then replace it in one step. -/
def applyEffect (effect : FileEffect) : Prog ApplyWorld ProposalError Unit := do
  let last ← require fun world => effect.apply (world.symlinked effect.path)
    (world.files effect.path)
  update fun world => { world with files := Function.update world.files effect.path last }

/-! ## Drive, decide, recover -/

/-- Bring a saved decision's effects to their end, from wherever they stopped. -/
def drive (env : ApplyEnvironment) (view : ProposalView) (transaction : ApplyTransaction)
    (now : String) : Prog ApplyWorld ProposalError ProposalView := do
  ofExcept (validateTransaction env view transaction)
  let _ ← require (loadRecord env)
  let existing ← require fun world =>
    ChangeLog.scan world.log >>= fun log => log.existingEntry transaction.entry
  forEach transaction.effects requireExpected
  match transaction.entry with
  | none => do
    forEach transaction.effects applyEffect
    finalize view true now
  | some entry => do
    ensureIntent existing entry
    forEach transaction.effects applyEffect
    ensureApplied entry now
    finalize view false now

/-- Delete prepared transactions no decision names. -/
def removeOrphanTransactions : Prog ApplyWorld ProposalError Unit := do
  let views ← require fun world => world.proposals.list
  let named := views.filterMap fun view => view.decision.bind (·.transactionId)
  let orphans ← read fun world =>
    (world.applies.map (·.id)).filter fun id => !named.any (· = id)
  forEach orphans fun id =>
    update fun world => { world with applies := world.applies.filter (·.id ≠ id) }

/-- Publish a transaction; its id may only name it. -/
def writeTransaction (transaction : ApplyTransaction) : Prog ApplyWorld ProposalError Unit := do
  let held ← read fun world => world.applies.find? (·.id = transaction.id)
  match held with
  | none => update fun world => { world with applies := world.applies ++ [transaction] }
  | some held =>
    if held = transaction then return () else .fail (.missingTransaction transaction.id)

/-- Prepare everything, save the exact decision, then drive its effects. -/
def decideProposal (env : ApplyEnvironment) (view : ProposalView) (decision : Decision)
    (transactionId now : String) : Prog ApplyWorld ProposalError ProposalView := do
  let record ← require (loadRecord env)
  ofExcept (requirePending view record)
  require requireNoApply
  let named := { decision with transactionId := some transactionId }
  removeOrphanTransactions
  ofExcept (waiverLock env view.proposal)
  let transaction ← require fun world =>
    prepare env world.files record view.proposal named transactionId
  writeTransaction transaction
  let updated ← saveDecision view named (ApplyDigests.transaction transaction)
  drive env updated transaction now

/-- Drive one saved decision from its transaction file. -/
def recoverView (env : ApplyEnvironment) (now : String) (view : ProposalView) :
    Prog ApplyWorld ProposalError Unit := do
  let transaction ← require
    (loadTransaction ((view.decision.bind (·.transactionId)).getD ""))
  ofExcept (waiverLock env view.proposal)
  let _ ← drive env view transaction now
  return ()

/-- Complete every saved decision. An abandonment only completes the changes already begun. -/
def recoverLocked (env : ApplyEnvironment) (abandoning : Bool) (now : String) :
    Prog ApplyWorld ProposalError Unit := do
  let views ← require fun world => world.proposals.list
  let log ← require fun world => ChangeLog.scan world.log
  let begun := fun (view : ProposalView) =>
    (log.interrupted ++ log.applied).any (·.id = view.proposal.id)
  let approved := views.filter fun view =>
    view.state = .approved && view.closedByAbandonment.isNone && (!abandoning || begun view)
  if 1 < approved.length then .fail .severalApproved
  else do
    forEach views fun view =>
      if abandoning && (view.state = .approved && !begun view) then return ()
      else if view.awaits then recoverView env now view
      else return ()
    let last ← require fun world => ChangeLog.scan world.log
    if last.interrupted ≠ [] then .fail (.unresolvedIntents (last.interrupted.map (·.id)))
    else return ()

end Programs

end Booley.Goals
