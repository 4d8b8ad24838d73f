import Booley.Goals.RecordStore

/-!
# Binding a run, and the gate its evidence passes

A run is bound once, when it is admitted, to the record its worktree hosts. Every write of
its evidence compares that binding with the record and the worktree as they are then. What
Git and the file system answer is given as facts.
-/
namespace Booley.Goals

open Booley.Lib Booley.TestRuns

/-! ## The binding -/

/-- The protected inputs at one moment, without the declared capture. -/
structure ProtectedSnapshot where
  paths : List String
  workingDigest : String
  headDigest : String
deriving DecidableEq, Repr

/-- The entry baseline a record stores. -/
def ProtectedSnapshot.atEntry (record : GoalRecord) : ProtectedSnapshot where
  paths := record.protectedPaths
  workingDigest := record.protectedDigest.getD ""
  headDigest := record.protectedHeadDigest.getD ""

/-- Why `current` differs from a baseline without a declared capture; empty when it does not. -/
def snapshotViolations (baseline current : ProtectedSnapshot) : List String :=
  if current.paths ≠ baseline.paths then
    let changed := (current.paths.filter (· ∉ baseline.paths)) ++
      baseline.paths.filter (· ∉ current.paths)
    ["protected inputs now resolve to different files: " ++
      ", ".intercalate (changed.dedup.insertionSort (· ≤ ·))]
  else if current.workingDigest ≠ baseline.workingDigest then
    ["a protected input differs from its state at entry"]
  else if current.headDigest ≠ baseline.headDigest then
    ["a protected input differs from its state at entry in HEAD"]
  else []

/-- What one run was admitted under; compared again when it publishes. -/
structure GoalRunBinding where
  recordId : String
  recordRevision : Nat
  worktree : WorktreeIdentity
  worktreeRoot : String
  goalBranch : String
  invocationId : String
  specRevisions : List (String × Nat)
  start : ProtectedSnapshot
  eligible : Bool
  ineligibleReason : String
deriving DecidableEq

/-- The revision a Goal had at admission, or `none` if it was no Goal. -/
def GoalRunBinding.specRevision (binding : GoalRunBinding) (key : String) : Option Nat :=
  binding.specRevisions.reverse.lookup key

/-- What a worktree and the pending proposals of its record show at one moment. -/
structure WorktreeFacts where
  root : String
  identity : Except String WorktreeIdentity
  headRef : Except String (Option String)
  pendingApplies : List String
  violations : List String
  snapshot : Option ProtectedSnapshot

def branchRef (branch : String) : String := "refs/heads/" ++ branch

def applyInterrupted (pending : List String) : String :=
  "Goal apply interrupted (" ++ ", ".intercalate pending ++
    "); call goal_propose_change to recover before running or publishing evidence"

def GoalState.value : GoalState → String
  | .entering => "entering"
  | .active => "active"
  | .finishing => "finishing"
  | .finished => "finished"
  | .abandoned => "abandoned"
  | .failed => "failed"

/-- Every way a run is refused. -/
inductive BindingError where
  | noInvocation
  | notActive (id : String) (state : GoalState)
  | applyInterrupted (reason : String)
  | branch (reason : String)
  | testRuns (refusal : StoreError)

/-- Fill the pending Test Run slots of a record: save what can be frozen now, if anything. -/
def ensureTestRunResolutions (presentation : GoalSpec → String) (record : GoalRecord) :
    Option (Dict String TestRunResolution) → Except StoreError GoalRecord
  | none => .ok record
  | some frozen => GoalRecord.save presentation record (record.updated (.testRunsResolved frozen))

/-- Why a worktree is not on the Goal Branch of a record. -/
def offGoalBranch (record : GoalRecord) (facts : WorktreeFacts) : Option String :=
  match facts.headRef with
  | .error reason => some reason
  | .ok head =>
    if head = some (branchRef record.branch) then none
    else some ("worktree " ++ facts.root ++ " is on " ++ head.getD "a detached HEAD" ++
      ", not Goal Branch " ++ record.branch ++ " of Goal Mode " ++ record.id)

/-- The binding of a run to a record, with the protected inputs as the run starts. -/
def bindingOf (record : GoalRecord) (facts : WorktreeFacts) (invocationId : String) :
    GoalRunBinding where
  recordId := record.id
  recordRevision := record.revision
  worktree := record.worktree
  worktreeRoot := facts.root
  goalBranch := record.branch
  invocationId := invocationId
  specRevisions := (record.goals.map fun goal => (goal.spec.key, goal.specRevision)).insertionSort
    fun left right => left.1 < right.1 ∨ left.1 = right.1 ∧ left.2 ≤ right.2
  start := facts.snapshot.getD (.atEntry record)
  eligible := facts.violations.isEmpty
  ineligibleReason := "; ".intercalate facts.violations

/-- Bind a run to the active record of its worktree; the record as it is afterwards. -/
def bindRun (presentation : GoalSpec → String) (record : GoalRecord) (facts : WorktreeFacts)
    (frozen : Option (Dict String TestRunResolution)) (invocationId : String) :
    Except BindingError (GoalRecord × GoalRunBinding) :=
  if invocationId = "" then .error .noInvocation
  else if record.state ≠ .active then .error (.notActive record.id record.state)
  else if facts.pendingApplies ≠ [] then
    .error (.applyInterrupted (applyInterrupted facts.pendingApplies))
  else match offGoalBranch record facts with
    | some reason => .error (.branch reason)
    | none =>
      match ensureTestRunResolutions presentation record frozen with
      | .error refusal => .error (.testRuns refusal)
      | .ok resolved => .ok (resolved, bindingOf resolved facts invocationId)

/-- The Goals a binding names are those of its record, at their revisions. -/
theorem mem_specRevisions {record : GoalRecord} {facts : WorktreeFacts} {invocationId : String}
    {named : String × Nat} :
    named ∈ (bindingOf record facts invocationId).specRevisions ↔
      ∃ goal ∈ record.goals, (goal.spec.key, goal.specRevision) = named := by
  simp only [bindingOf, List.mem_insertionSort, List.mem_map]

theorem specRevision_bindingOf {record : GoalRecord} {facts : WorktreeFacts}
    {invocationId key : String} {revision : Nat}
    (h : (bindingOf record facts invocationId).specRevision key = some revision) :
    ∃ goal ∈ record.goals, goal.spec.key = key ∧ goal.specRevision = revision := by
  obtain ⟨before, after, hsplit, -⟩ := List.lookup_eq_some_iff.mp h
  have hmem : (key, revision) ∈ (bindingOf record facts invocationId).specRevisions := by
    rw [← List.mem_reverse, hsplit]
    simp
  obtain ⟨goal, hgoal, hnamed⟩ := mem_specRevisions.mp hmem
  exact ⟨goal, hgoal, congrArg Prod.fst hnamed, congrArg Prod.snd hnamed⟩

/-! ## The gate -/

/-- Why a publication was refused: its evidence is discarded, or it could not be recorded. -/
inductive PublicationError where
  | discarded (reason : String)
  | recording (reason : String)

/-- Why a stored record cannot be read under its lock. -/
inductive LoadFailure where
  | missing
  | unlockable (reason : String)
  | unreadable (reason : String)

/-- One run's gate; once a check has failed it stays closed. -/
structure PublicationGate where
  binding : GoalRunBinding
  discarded : Option String
deriving DecidableEq

def PublicationGate.opened (binding : GoalRunBinding) : PublicationGate := ⟨binding, none⟩

/-- Why evidence for one Goal cannot be published; `none` when it can. -/
def affectedViolation (presentation : GoalSpec → String) (record : GoalRecord)
    (binding : GoalRunBinding) (key : String) : Option String :=
  match binding.specRevision key, record.specRevisionOf key with
  | none, _ => some "Evidence did not match a Goal admitted when the run started"
  | some _, none => some "An admitted Goal was removed during the run"
  | some admitted, some current =>
    if current ≠ admitted then
      let changed := (record.goals.find? (·.spec.key = key)).map (presentation ·.spec)
      some ("Goal " ++ changed.getD "" ++ " changed during the run")
    else none

/-- What the gate asks of the record. -/
def checkRecord (presentation : GoalSpec → String) (binding : GoalRunBinding)
    (record : GoalRecord) (affected : List String) (pendingApplies : List String) :
    Except PublicationError Unit :=
  if pendingApplies ≠ [] then .error (.discarded (applyInterrupted pendingApplies))
  else if record.state ≠ .active then .error (.discarded ("Goal Mode " ++ record.state.value))
  else if record.revision ≠ binding.recordRevision ∧
      snapshotViolations binding.start (.atEntry record) ≠ [] then
    .error (.discarded "the Goal Mode's protected-input baseline changed during the run")
  else if binding.recordRevision < record.publicationFloor then
    .error (.discarded "run predates the Goal lifecycle publication fence")
  else match (affected.insertionSort (· ≤ ·)).findSome?
      (affectedViolation presentation record binding) with
    | some reason => .error (.discarded reason)
    | none => .ok ()

/-- Why the bound worktree no longer is what the run was admitted in. -/
def checkoutDrift (binding : GoalRunBinding) (facts : WorktreeFacts) : Option String :=
  match facts.identity, facts.headRef with
  | .error reason, _ => some ("the Goal worktree cannot be inspected: " ++ reason)
  | _, .error reason => some ("the Goal worktree cannot be inspected: " ++ reason)
  | .ok identity, .ok head =>
    if identity ≠ binding.worktree then
      some (binding.worktreeRoot ++ " is no longer the worktree the run was admitted in")
    else if head ≠ some (branchRef binding.goalBranch) then
      some ("the worktree is on " ++ head.getD "a detached HEAD" ++ ", not Goal Branch " ++
        binding.goalBranch)
    else none

/-- What the gate asks of the worktree. -/
def checkWorktree (binding : GoalRunBinding) (facts : WorktreeFacts) :
    Except PublicationError Unit :=
  match checkoutDrift binding facts with
  | some drift => .error (.discarded ("checkout changed during the run: " ++ drift))
  | none =>
    if facts.violations ≠ [] then
      .error (.discarded ("protected input changed during the run: " ++
        "; ".intercalate facts.violations))
    else .ok ()

/-- Every check of a publication, against the record as it is stored now. -/
def checkedPublication (presentation : GoalSpec → String) (binding : GoalRunBinding)
    (stored : Except LoadFailure GoalRecord) (affected : List String) (facts : WorktreeFacts) :
    Except PublicationError GoalRecord :=
  if !binding.eligible then
    .error (.discarded ("protected input changed before the run: " ++ binding.ineligibleReason))
  else match stored with
    | .error .missing =>
      .error (.discarded ("Goal Mode " ++ binding.recordId ++ " no longer exists"))
    | .error (.unlockable reason) =>
      .error (.recording ("cannot lock Goal Mode " ++ binding.recordId ++ ": " ++ reason))
    | .error (.unreadable reason) =>
      .error (.discarded ("Goal Mode record cannot be read: " ++ reason))
    | .ok record => do
      checkRecord presentation binding record affected facts.pendingApplies
      checkWorktree binding facts
      .ok record

/-- Check the binding for the Goals a write affects, and remember a discarded run. -/
def PublicationGate.publishing (presentation : GoalSpec → String) (gate : PublicationGate)
    (stored : Except LoadFailure GoalRecord) (affected : List String) (facts : WorktreeFacts) :
    PublicationGate × Except PublicationError GoalRecord :=
  match gate.discarded with
  | some reason => (gate, .error (.discarded reason))
  | none =>
    match checkedPublication presentation gate.binding stored affected facts with
    | .error (.discarded reason) =>
      ({ gate with discarded := some reason }, .error (.discarded reason))
    | outcome => (gate, outcome)

/-! ## What a passed gate says -/

/-- A run may publish for some Goals of a record. -/
structure Publishable (binding : GoalRunBinding) (record : GoalRecord) (affected : List String) :
    Prop where
  active : record.state = .active
  fence : record.publicationFloor ≤ binding.recordRevision
  admitted : ∀ key ∈ affected, ∃ revision, binding.specRevision key = some revision ∧
    record.specRevisionOf key = some revision

theorem affectedViolation_eq_none {presentation : GoalSpec → String} {record : GoalRecord}
    {binding : GoalRunBinding} {key : String}
    (h : affectedViolation presentation record binding key = none) :
    ∃ revision, binding.specRevision key = some revision ∧
      record.specRevisionOf key = some revision := by
  unfold affectedViolation at h
  cases hadmitted : binding.specRevision key with
  | none => simp [hadmitted] at h
  | some admitted =>
    cases hcurrent : record.specRevisionOf key with
    | none => simp [hadmitted, hcurrent] at h
    | some current =>
      simp only [hadmitted, hcurrent] at h
      split_ifs at h with hsame
      exact ⟨admitted, rfl, by rw [not_not.mp hsame]⟩

theorem publishable_of_checkRecord {presentation : GoalSpec → String}
    {binding : GoalRunBinding} {record : GoalRecord} {affected pendingApplies : List String}
    (h : checkRecord presentation binding record affected pendingApplies = .ok ()) :
    pendingApplies = [] ∧ Publishable binding record affected := by
  unfold checkRecord at h
  split_ifs at h with hpending hactive hbaseline hfloor
  refine ⟨not_not.mp hpending, not_not.mp hactive, not_lt.mp hfloor, ?_⟩
  intro key hkey
  cases hviolation : (affected.insertionSort (· ≤ ·)).findSome?
      (affectedViolation presentation record binding) with
  | some reason => simp [hviolation] at h
  | none =>
    rw [List.findSome?_eq_none_iff] at hviolation
    exact affectedViolation_eq_none (hviolation key ((List.mem_insertionSort _).mpr hkey))

theorem publishable_of_checked {presentation : GoalSpec → String} {binding : GoalRunBinding}
    {stored : Except LoadFailure GoalRecord} {record : GoalRecord} {affected : List String}
    {facts : WorktreeFacts}
    (h : checkedPublication presentation binding stored affected facts = .ok record) :
    stored = .ok record ∧ facts.pendingApplies = [] ∧ Publishable binding record affected := by
  unfold checkedPublication at h
  split_ifs at h with heligible
  rcases stored with (_ | _ | _) | held
  · cases h
  · cases h
  · cases h
  · obtain ⟨_, hrecord, h⟩ := except_bind_eq_ok.mp h
    obtain ⟨_, -, h⟩ := except_bind_eq_ok.mp h
    obtain rfl := Except.ok.inj h
    exact ⟨rfl, publishable_of_checkRecord hrecord⟩

/-- A gate that lets a write through read the record it yields. -/
theorem publishable_of_publishing {presentation : GoalSpec → String} {gate : PublicationGate}
    {stored : Except LoadFailure GoalRecord} {record : GoalRecord} {affected : List String}
    {facts : WorktreeFacts}
    (h : (gate.publishing presentation stored affected facts).2 = .ok record) :
    stored = .ok record ∧ facts.pendingApplies = [] ∧
      Publishable gate.binding record affected := by
  unfold PublicationGate.publishing at h
  split at h
  · cases h
  · split at h
    · cases h
    · exact publishable_of_checked h

@[simp] theorem binding_publishing (presentation : GoalSpec → String) (gate : PublicationGate)
    (stored : Except LoadFailure GoalRecord) (affected : List String) (facts : WorktreeFacts) :
    (gate.publishing presentation stored affected facts).1.binding = gate.binding := by
  unfold PublicationGate.publishing
  split
  · rfl
  · split <;> rfl

end Booley.Goals
