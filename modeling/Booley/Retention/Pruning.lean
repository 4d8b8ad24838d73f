import Booley.Retention.Dependents

/-!
# Full pruning

One invocation, or an invocation with its dependents, is renamed to its quarantine and emptied.
Every write of a journal, rename and removal is a step of its own, so a call may be stopped
between any two of them.
-/
namespace Booley.Retention

open Booley.Lib Booley.Lib.Prog

/-- What pruning is given from outside the reports root. `validate` refuses an invocation whose
progress, Targets or owned files do not agree, `recoverLane` one whose interrupted lane cannot
be cancelled, `authenticRun` says that a run directory carries its attempt's marker,
`infersProjectData` that the Booley Directory can be told from the reports root, and `listing`
is the order in which a directory is listed. -/
structure PruneEnvironment where
  validate : Nat → Invocation → Except String Unit
  recoverLane : String → Except String Unit
  authenticRun : String → Bool
  infersProjectData : Bool
  listing : List Child → List Child
  listing_perm : ∀ children, (listing children).Perm children

variable (env : PruneEnvironment)

/-! ## The batch journal -/

namespace Reports

/-- The batch journal of an interrupted prune of an invocation with its dependents. -/
def readPruneBatch (reports : Reports) (n : Nat) : Except String (Option PruneBatch) :=
  let live := (reports.invocations.lookup n).bind (·.batchJournal)
  let quarantined := (reports.quarantines.lookup n).bind (·.batchJournal)
  match live, quarantined with
  | none, none => .ok none
  | some _, some _ => .error "Pruning batch journal state is ambiguous"
  | some batch, none => check batch
  | none, some batch => check batch
where
  check (batch : PruneBatch) : Except String (Option PruneBatch) :=
    if batch.origin ≠ n then .error "Pruning batch journal is invalid"
    else if batch.members.any (· < 1) then .error "Pruning batch member is not canonical"
    else if batch.members ≠ sortedPaths batch.members ∨ ¬ batch.members.Nodup then
      .error "Pruning batch membership is invalid"
    else .ok (some batch)

/-- The members of a batch journal as the dependents they still are. -/
def journalDependents (reports : Reports) (n : Nat) (members : List Nat) :
    Except String (List DependentInvocation) := do
  let current ← if (reports.invocations.lookup n).isSome then
      reports.dependentInvocations n false else pure []
  pure (members.map fun member => match current.find? (·.path = member) with
    | some item => item
    | none => ⟨member, reports.completedTombstone member || reports.recoverableQuarantine member⟩)

/-! ## Checks -/

/-- The files of an invocation are all accounted for. -/
def validateInvocation (reports : Reports) (n : Nat) (directory : Directory) :
    Except String Unit := do
  env.validate n directory.invocation
  match directory.batchJournal with
  | none => pure ()
  | some _ => match ← reports.readPruneBatch n with
    | none => throw "Pruning batch journal is invalid"
    | some _ => pure ()
  if directory.pruneJournal.isNone && directory.temporaries.isEmpty then pure ()
  else throw "Unrecognized invocation content"

/-- Interrupted attempts need the Booley Directory. -/
def preflightResources (directory : Directory) (projectData : Bool) : Except String Unit :=
  if directory.invocation.campaigns.any (!·.interrupted.isEmpty) ∧ ¬ projectData then
    .error "Booley Directory is required to recover interrupted Simulation Campaign resources"
  else .ok ()

/-- What is checked of every selected invocation before the first of them is touched. -/
def preflightInvocation (reports : Reports) (n : Nat) (projectData : Bool) :
    Except String Unit :=
  if reports.completedTombstone n || reports.recoverableQuarantine n then .ok ()
  else match reports.invocations.lookup n with
    | none => .error "Dependent invocation does not exist"
    | some directory =>
      if directory.matchingPruneJournal n || reports.emptyAbandonedReservation n then .ok ()
      else do
        reports.validateInvocation env n directory
        preflightResources directory projectData

/-- The dependents are the ones that were read before their locks were taken. -/
def verifyLockedMembers (reports : Reports) (n : Nat) (dependencies : List DependentInvocation) :
    Except String Unit := do
  let expected := dependencies.map (·.path)
  let refreshed ← match ← reports.readPruneBatch n with
    | some _ => reports.journalDependents n expected
    | none => reports.dependentInvocations n true
  if refreshed.map (·.path) ≠ expected then
    throw "Simulation Campaign dependencies changed during pruning"
  else if refreshed.any fun item => !item.authenticated && !reports.completedTombstone item.path &&
      !reports.recoverableQuarantine item.path then
    throw "Dependent report no longer authenticates to the origin"
  else pure ()

/-- The dependents that are left once the members are pruned. -/
def remainingDependencies (reports : Reports) (n : Nat) (members : List Nat) :
    Except String (List Nat) :=
  if members.all reports.completedTombstone then .ok []
  else if (reports.invocations.lookup n).isNone then
    .ok (members.filter (!reports.completedTombstone ·))
  else do
    let dependencies ← reports.dependentInvocations n true
    pure ((dependencies.map (·.path)).filter (!reports.completedTombstone ·))

end Reports

/-! ## Writes -/

/-- Change the directory of an invocation. -/
def updateDirectory (n : Nat) (change : Directory → Directory) (reports : Reports) : Reports :=
  { reports with invocations := reports.invocations.alter n (·.map change) }

/-- Change the quarantine of an invocation. -/
def updateQuarantine (n : Nat) (change : Quarantine → Quarantine) (reports : Reports) : Reports :=
  { reports with quarantines := reports.quarantines.alter n (·.map change) }

/-- The directory of an invocation becomes its quarantine. -/
def renameToQuarantine (n : Nat) (reports : Reports) : Reports :=
  match reports.invocations.lookup n with
  | none => reports
  | some directory => { reports with
      invocations := reports.invocations.erase n
      quarantines := reports.quarantines.insert n directory.quarantined }

/-- Publish a JSON document in an invocation: a temporary file, then its replacement. -/
def writeCampaignJson (n : Nat) (publish : Directory → Directory) : Prog Reports String Unit := do
  update (updateDirectory n fun directory =>
    { directory with temporaries := ".coverage-" :: directory.temporaries })
  update (updateDirectory n fun directory =>
    publish { directory with temporaries := directory.temporaries.tail })

def writePruneJournal (n : Nat) : Prog Reports String Unit :=
  writeCampaignJson n fun directory => { directory with pruneJournal := some ⟨n, "full"⟩ }

def writePruneBatch (n : Nat) (members : List Nat) : Prog Reports String Unit :=
  writeCampaignJson n fun directory => { directory with batchJournal := some ⟨n, members⟩ }

/-! ## One invocation -/

/-- Remove the run directory an interrupted attempt left, when it carries its marker. -/
def removeRunDirectory (run : String) : Prog Reports String Unit := do
  let present ← read (·.runDirectories.contains run)
  match present with
  | false => pure ()
  | true =>
    if env.authenticRun run then
      update fun reports => { reports with
        runDirectories := reports.runDirectories.filter (· ≠ run) }
    else fail "refusing to clean unowned run directory"

/-- Cancel the lanes of a campaign's interrupted attempts, then remove their run directories. -/
def recoverCampaign (projectData : Bool) (campaign : Campaign) : Prog Reports String Unit := do
  let lanes := campaign.interrupted.filterMap (·.lane)
  let runs := campaign.interrupted.filterMap (·.ownedRun)
  require fun reports =>
    if (runs.any reports.runDirectories.contains || !lanes.isEmpty) && !projectData then
      .error "Booley Directory is required to recover retained Campaign resources"
    else .ok ()
  if projectData then
    forEach lanes fun lane => ofExcept (env.recoverLane lane)
    forEach runs (removeRunDirectory env)
  else pure ()

/-- Validate and quarantine an invocation that published its progress. -/
def prunePublishedInvocation (n : Nat) (projectData : Bool) (directory : Directory) :
    Prog Reports String Unit := do
  require (·.validateInvocation env n directory)
  forEach directory.invocation.campaigns
    (recoverCampaign env (projectData || env.infersProjectData))
  writePruneJournal n
  update (renameToQuarantine n)

/-- Move an invocation that is still there to its quarantine. -/
def quarantineInvocation (n : Nat) (projectData : Bool) : Prog Reports String Unit := do
  let reports ← read id
  match reports.invocations.lookup n with
  | none =>
    match reports.quarantines.lookup n with
    | none => fail "Invocation does not exist"
    | some _ => pure ()
  | some directory =>
    if (reports.quarantines.lookup n).isSome then fail "Ambiguous invocation pruning state"
    else if directory.matchingPruneJournal n then update (renameToQuarantine n)
    else if reports.emptyAbandonedReservation n then
      writePruneJournal n
      update (renameToQuarantine n)
    else prunePublishedInvocation env n projectData directory

/-- Remove everything in a quarantine, its prune journal last. -/
def removeQuarantine (n : Nat) : Prog Reports String Unit := do
  let quarantine? ← read (·.quarantines.lookup n)
  match quarantine? with
  | none => pure ()
  | some quarantine =>
    if quarantine.empty then pure ()
    else if quarantine.pruneJournal.isNone then fail "Quarantine has no pruning journal"
    else
      forEach (env.listing quarantine.children) fun child =>
        update (updateQuarantine n (·.remove child))
      update (updateQuarantine n fun quarantine => { quarantine with pruneJournal := none })

def pruneSelected (n : Nat) (projectData : Bool) : Prog Reports String Unit := do
  quarantineInvocation env n projectData
  removeQuarantine env n

/-! ## An invocation with its dependents -/

/-- A member is locked only when it is another invocation that cites the origin. -/
def lockMember (n : Nat) (item : DependentInvocation) (reports : Reports) : Except String Unit :=
  if reports.completedTombstone item.path then .ok ()
  else if !item.authenticated && !reports.recoverableQuarantine item.path then
    .error "Dependent report does not authenticate to the origin Simulation Campaign"
  else if item.path = n then
    .error "invocation is still being produced; retry after it finishes"
  else .ok ()

/-- Write the batch journal unless an interrupted call has written it. -/
def ensurePruneBatch (n : Nat) (members : List Nat) : Prog Reports String Unit := do
  let batch ← require (·.readPruneBatch n)
  match batch with
  | some _ => pure ()
  | none =>
    require fun reports => if (reports.invocations.lookup n).isSome then .ok ()
      else .error "Pruning batch journal is missing during recovery"
    writePruneBatch n members

def pruneInvocationBatch (n : Nat) (dependencies : List DependentInvocation)
    (projectData : Bool) : Prog Reports String Unit := do
  let members := dependencies.map (·.path)
  forEach dependencies fun item => require (lockMember n item)
  require (·.verifyLockedMembers n dependencies)
  forEach (members ++ [n]) fun member => require (·.preflightInvocation env member projectData)
  ensurePruneBatch n members
  forEach members fun member => pruneSelected env member projectData
  require fun reports => do
    let remaining ← reports.remainingDependencies n members
    if remaining.isEmpty then pure ()
    else throw "Unselected Simulation Campaign dependency remains"
  pruneSelected env n projectData

/-- Remove one invocation, optionally with the resumes that depend on it. -/
def pruneInvocation (n : Nat) (projectData includeDependents : Bool) :
    Prog Reports String Unit := do
  let reports ← read id
  if n < 1 then fail "Select one exact positive invocation number"
  else if reports.completedTombstone n then pure ()
  else match reports.readPruneBatch n with
    | .error refusal => fail refusal
    | .ok (some batch) =>
      if includeDependents then
        match reports.journalDependents n batch.members with
        | .error refusal => fail refusal
        | .ok dependencies => pruneInvocationBatch env n dependencies projectData
      else fail "An interrupted dependent prune must resume with --include-dependents"
    | .ok none =>
      match reports.dependentInvocations n true with
      | .error refusal => fail refusal
      | .ok dependencies =>
        if includeDependents then pruneInvocationBatch env n dependencies projectData
        else if dependencies.any (!reports.completedTombstone ·.path) then
          fail "Invocation has dependent resumes"
        else pruneSelected env n projectData

end Booley.Retention
