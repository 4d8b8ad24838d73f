import Booley.Goals.Campaigns
import Booley.Goals.RecordHistory

/-!
# The publication fence over a whole lifecycle

Runs are bound, records are updated and evidence is published in any order. The fence of a
lifecycle step is the revision that a run must have been bound at to publish after it.
-/
namespace Booley.Goals

open Booley.Lib Booley.TestRuns

section Worlds

variable {J : Type} [Digests] [CampaignDigests]

/-- One record, the gates of the runs bound to it, the campaigns they registered, and the
evidence the ledger shows. -/
structure PublicationWorld (J : Type) where
  records : RecordWorld
  gates : List PublicationGate
  registrations : List CampaignRegistration
  ledger : List (LedgerRow J)

/-- One step of one process. Each holds the record lock. -/
inductive PublicationEvent (J : Type) where
  | record (event : RecordEvent)
  | bind (facts : WorktreeFacts) (frozen : Option (Dict String TestRunResolution))
      (invocationId : String)
  /-- Another process reads the binding of a run, and opens a gate of its own. -/
  | reopen (gate : Nat)
  /-- A writer stopped early publishes only the rows it has a sequence for. -/
  | publish (gate : Nat) (facts : WorktreeFacts) (changes : List (CriterionChange (Detail J)))
      (sequences : List Nat) (recordedAt : String)
  | register (gate : Nat) (facts : WorktreeFacts) (campaign : StartedCampaign)
      (stamp : TestRunGoal → Option (List (String × String))) (registeredAt : String)
  | adopt (registration : Nat) (facts : WorktreeFacts) (durable : DurableCampaignResults)
      (key : String) (declared : Option (Bool × Detail J × J)) (sequence : Nat)
      (recordedAt : String)
  | deregister (registration : Nat)

/-- The identity group of some Goals, at their admitted revisions. -/
def identityFor (binding : GoalRunBinding) (keys : List String) :
    Except PublicationError (List (String × Nat)) := do
  let revisions ← keys.mapM fun key =>
    match binding.specRevision key with
    | some revision => .ok (key, revision)
    | none => .error
        (.discarded "Evidence did not match a Goal admitted when the run started")
  if revisions = [] then
    .error (.recording "Goal evidence needs at least one Criterion change")
  else .ok revisions

/-- A change as it is recorded: judged by its ledger when its Goal names Test Runs. -/
def preparedChange (record : GoalRecord) (history : List (LedgerRow J))
    (change : CriterionChange (Detail J)) : Except String (CriterionChange (Detail J)) :=
  if !change.met && change.reason = sourceInvalidatedReason then .ok change
  else match (record.goals.reverse.find? (·.spec.key = change.key)).bind testRunGoal? with
    | some goal => judgedChange change goal record history
    | none => .ok change

namespace PublicationWorld

def created (record : GoalRecord) : PublicationWorld J := ⟨.created record, [], [], []⟩

/-- Bind a run; the Test Runs it can freeze are saved first. -/
def bind (presentation : GoalSpec → String) (world : PublicationWorld J) (facts : WorktreeFacts)
    (frozen : Option (Dict String TestRunResolution)) (invocationId : String) :
    PublicationWorld J :=
  match bindRun presentation world.records.record facts frozen invocationId with
  | .error _ => world
  | .ok (_, binding) =>
    { world with
      records := match frozen with
        | none => world.records
        | some frozen =>
          world.records.saveCopy presentation world.records.record (.testRunsResolved frozen)
      gates := world.gates ++ [.opened binding] }

/-- Ask a gate, which remembers a discarded run. -/
def ask (presentation : GoalSpec → String) (world : PublicationWorld J) (index : Nat)
    (gate : PublicationGate) (affected : List String) (facts : WorktreeFacts) :
    PublicationWorld J × Except PublicationError GoalRecord :=
  let (asked, outcome) :=
    gate.publishing presentation (.ok world.records.record) affected facts
  ({ world with gates := world.gates.set index asked }, outcome)

/-- Publish a run's changes as one identity group. -/
def publish (presentation : GoalSpec → String) (world : PublicationWorld J) (index : Nat)
    (gate : PublicationGate) (facts : WorktreeFacts)
    (changes : List (CriterionChange (Detail J))) (sequences : List Nat) (recordedAt : String) :
    PublicationWorld J :=
  let keys := (changes.map (·.key)).dedup.insertionSort (· ≤ ·)
  match identityFor gate.binding keys with
  | .error _ => world
  | .ok revisions =>
    match world.ask presentation index gate keys facts with
    | (asked, .error _) => asked
    | (asked, .ok record) =>
      match changes.mapM (preparedChange record world.ledger) with
      | .error _ => asked
      | .ok prepared =>
        { asked with ledger := world.ledger ++ (prepared.zip sequences).map fun pair =>
            ledgerRow record revisions pair.2 recordedAt pair.1 }

/-- Register a campaign under a run's gate. -/
def register (presentation : GoalSpec → String) (world : PublicationWorld J) (index : Nat)
    (gate : PublicationGate) (facts : WorktreeFacts) (campaign : StartedCampaign)
    (stamp : TestRunGoal → Option (List (String × String))) (registeredAt : String) :
    PublicationWorld J :=
  match world.ask presentation index gate [] facts with
  | (asked, .error _) => asked
  | (asked, .ok record) =>
    match registerCampaign record gate.binding campaign stamp registeredAt with
    | none => asked
    | some registration => { asked with registrations := world.registrations ++ [registration] }

/-- Adopt what a registered campaign holds for one Goal. Its passes count only while the run
that started it could publish for every Goal that is still relevant. -/
def adopt (presentation : GoalSpec → String) (world : PublicationWorld J)
    (registration : CampaignRegistration) (facts : WorktreeFacts)
    (durable : DurableCampaignResults) (key : String) (declared : Option (Bool × Detail J × J))
    (sequence : Nat) (recordedAt : String) : PublicationWorld J :=
  let record := world.records.record
  let keys := relevantKeys registration record
  if record.state ≠ .active ∨ facts.pendingApplies ≠ [] ∨ key ∉ keys then world
  else
    let trusted := (checkedPublication presentation registration.binding (.ok record) keys
      facts).toOption.isSome
    match outcomeGoal? record key with
    | none => world
    | some goal =>
      match adoptGoal record registration durable goal trusted declared world.ledger sequence
          recordedAt with
      | .ok (some row) => { world with ledger := world.ledger ++ [row] }
      | _ => world

def step (presentation : GoalSpec → String) (recordFile : String) (world : PublicationWorld J) :
    PublicationEvent J → PublicationWorld J
  | .record event => { world with records := world.records.step presentation recordFile event }
  | .bind facts frozen invocationId => world.bind presentation facts frozen invocationId
  | .reopen gate =>
    match world.gates[gate]? with
    | some gate => { world with gates := world.gates ++ [.opened gate.binding] }
    | none => world
  | .publish index facts changes sequences recordedAt =>
    match world.gates[index]? with
    | some gate => world.publish presentation index gate facts changes sequences recordedAt
    | none => world
  | .register index facts campaign stamp registeredAt =>
    match world.gates[index]? with
    | some gate => world.register presentation index gate facts campaign stamp registeredAt
    | none => world
  | .adopt index facts durable key declared sequence recordedAt =>
    match world.registrations[index]? with
    | some registration =>
      world.adopt presentation registration facts durable key declared sequence recordedAt
    | none => world
  | .deregister index => { world with registrations := world.registrations.eraseIdx index }

def run (presentation : GoalSpec → String) (recordFile : String) (world : PublicationWorld J)
    (events : List (PublicationEvent J)) : PublicationWorld J :=
  events.foldl (step presentation recordFile) world

end PublicationWorld

end Worlds

/-! ## Fences -/

/-- The revision a run must have been bound at to publish after an update; `none` for an update
that fences nothing. A finish attempt frozen before other updates fences the runs up to it. -/
def fenceOf (previous : GoalRecord) : GoalRecord.Update → Option Nat
  | .finishing .. => some (previous.revision + 1)
  | .abandoned .. => some (previous.revision + 1)
  | .revalidation cutoff => some (cutoff.getD (previous.revision + 1))
  | _ => none

/-- No save of a history fences a run out. -/
def PastFences (history : List GoalRecord) (binding : GoalRunBinding) : Prop :=
  ∀ newer previous update floor, [newer, previous] <:+: history →
    newer = { previous.updated update with revision := previous.revision + 1 } →
    fenceOf previous update = some floor → floor ≤ binding.recordRevision

/-- A run was admitted under an active version of a record, and some Goals are still the ones
it was admitted with. -/
structure Unchanged (records : RecordWorld) (binding : GoalRunBinding) (keys : List String) :
    Prop where
  active : records.record.state = .active
  admitted : ∃ version ∈ records.history, version.revision = binding.recordRevision ∧
    version.state = .active ∧
    ∀ key ∈ keys, ∃ goal ∈ records.record.goals, goal ∈ version.goals ∧ goal.spec.key = key ∧
      binding.specRevision key = some goal.specRevision

theorem fence_le_floor {previous newer : GoalRecord} {update : GoalRecord.Update} {floor : Nat}
    (hnewer : newer = { previous.updated update with revision := previous.revision + 1 })
    (hfence : fenceOf previous update = some floor) : floor ≤ newer.publicationFloor := by
  cases update with
  | finishing validatedHead packageDigest attemptDigest operation =>
    obtain rfl := Option.some.inj hfence
    simp [hnewer, GoalRecord.updated]
  | abandoned endedAt quote operation =>
    obtain rfl := Option.some.inj hfence
    simp [hnewer, GoalRecord.updated]
  | revalidation cutoff =>
    obtain rfl := Option.some.inj hfence
    simp [hnewer, GoalRecord.updated]
  | branchCreated => cases hfence
  | protectedInputs paths digest headDigest declared => cases hfence
  | activated => cases hfence
  | entryFailed failure endedAt => cases hfence
  | testRunsResolved frozen => cases hfence
  | finished endedAt => cases hfence

/-- The floor only rises, so the newest record has the highest. -/
theorem floor_le_newest {newest : GoalRecord} {older : List GoalRecord}
    (hchained : (newest :: older).IsChain Supersedes) {version : GoalRecord}
    (hversion : version ∈ newest :: older) :
    version.publicationFloor ≤ newest.publicationFloor := by
  induction older generalizing newest with
  | nil => rw [List.mem_singleton.mp hversion]
  | cons previous rest ih =>
    obtain ⟨hnext, hrest⟩ := List.isChain_cons_cons.mp hchained
    rcases List.mem_cons.mp hversion with rfl | hearlier
    · exact le_rfl
    · exact (ih hrest hearlier).trans hnext.floor

theorem pastFences_of_floor {records : RecordWorld} (hrecords : records.Coherent)
    {binding : GoalRunBinding}
    (hfloor : records.record.publicationFloor ≤ binding.recordRevision) :
    PastFences records.history binding := by
  intro newer previous update floor hadjacent hnewer hfence
  have hmem : newer ∈ records.history := hadjacent.subset (by simp)
  have hle := floor_le_newest hrecords.chained hmem
  have hraised := fence_le_floor hnewer hfence
  omega

theorem exists_goal_of_specRevisionOf {record : GoalRecord} {key : String} {revision : Nat}
    (h : record.specRevisionOf key = some revision) :
    ∃ goal ∈ record.goals, goal.spec.key = key ∧ goal.specRevision = revision := by
  obtain ⟨goal, hgoal, hrevision⟩ := Option.map_eq_some_iff.mp h
  have hkey : goal.spec.key = key := by simpa using List.find?_some hgoal
  exact ⟨goal, List.mem_reverse.mp (List.mem_of_find?_eq_some hgoal), hkey, hrevision⟩

/-! ## The invariant -/

/-- A binding was taken from an active version of a history. -/
def AdmittedIn (history : List GoalRecord) (binding : GoalRunBinding) : Prop :=
  ∃ version ∈ history, version.revision = binding.recordRevision ∧ version.state = .active ∧
    ∀ key revision, binding.specRevision key = some revision →
      ∃ goal ∈ version.goals, goal.spec.key = key ∧ goal.specRevision = revision

theorem AdmittedIn.mono {history longer : List GoalRecord} {binding : GoalRunBinding}
    (h : AdmittedIn history binding) (hlonger : ∀ version ∈ history, version ∈ longer) :
    AdmittedIn longer binding := by
  obtain ⟨version, hversion, hrest⟩ := h
  exact ⟨version, hlonger version hversion, hrest⟩

theorem admittedIn_bindingOf {history : List GoalRecord} {record : GoalRecord}
    (hrecord : record ∈ history) (hactive : record.state = .active) (facts : WorktreeFacts)
    (invocationId : String) : AdmittedIn history (bindingOf record facts invocationId) :=
  ⟨record, hrecord, rfl, hactive, fun _ _ hbound => specRevision_bindingOf hbound⟩

/-- Goals that still have their admitted revision are the Goals of the admission. -/
theorem unchanged_of_admitted {records : RecordWorld} (hrecords : records.Coherent)
    {binding : GoalRunBinding} (hadmitted : AdmittedIn records.history binding)
    (hactive : records.record.state = .active) {keys : List String}
    (hkeys : ∀ key ∈ keys, ∃ goal ∈ records.record.goals, goal.spec.key = key ∧
      binding.specRevision key = some goal.specRevision) : Unchanged records binding keys := by
  obtain ⟨version, hversion, hrevision, hstate, hgoals⟩ := hadmitted
  refine ⟨hactive, version, hversion, hrevision, hstate, ?_⟩
  intro key hkey
  obtain ⟨goal, hgoal, hgoalKey, hbound⟩ := hkeys key hkey
  obtain ⟨other, hother, hotherKey, hotherRevision⟩ := hgoals key goal.specRevision hbound
  have hsame : goal = other := by
    refine hrecords.identified records.record List.mem_cons_self version hversion goal hgoal
      other hother ?_
    exact Prod.ext (hgoalKey.trans hotherKey.symm) hotherRevision.symm
  exact ⟨goal, hgoal, hsame ▸ hother, hgoalKey, hbound⟩

theorem unchanged_of_publishable {records : RecordWorld} (hrecords : records.Coherent)
    {binding : GoalRunBinding} (hadmitted : AdmittedIn records.history binding)
    {keys : List String} (h : Publishable binding records.record keys) :
    Unchanged records binding keys := by
  refine unchanged_of_admitted hrecords hadmitted h.active ?_
  intro key hkey
  obtain ⟨revision, hbound, hcurrent⟩ := h.admitted key hkey
  obtain ⟨goal, hgoal, hgoalKey, rfl⟩ := exists_goal_of_specRevisionOf hcurrent
  exact ⟨goal, hgoal, hgoalKey, hbound⟩

section Runs

variable {J : Type}

/-- What every world of a created record keeps. -/
structure PublicationWorld.Coherent (world : PublicationWorld J) : Prop where
  records : world.records.Coherent
  gates : ∀ gate ∈ world.gates, AdmittedIn world.records.history gate.binding
  registrations : ∀ registration ∈ world.registrations,
    AdmittedIn world.records.history registration.binding ∧
      ∀ key ∈ registration.stamps.keys,
        (registration.binding.specRevision key).isSome = true

namespace PublicationWorld

/-- A longer history keeps every admission. -/
theorem Coherent.withRecords {world : PublicationWorld J} (hw : world.Coherent)
    {records : RecordWorld} (hrecords : records.Coherent)
    (hlonger : ∀ version ∈ world.records.history, version ∈ records.history) :
    ({ world with records := records } : PublicationWorld J).Coherent :=
  ⟨hrecords, fun gate hgate => (hw.gates gate hgate).mono hlonger, fun registration hmem =>
    ⟨(hw.registrations registration hmem).1.mono hlonger, (hw.registrations registration hmem).2⟩⟩

theorem Coherent.withGate {world : PublicationWorld J} (hw : world.Coherent)
    {gate : PublicationGate} (hgate : AdmittedIn world.records.history gate.binding) :
    ({ world with gates := world.gates ++ [gate] } : PublicationWorld J).Coherent := by
  refine ⟨hw.records, ?_, hw.registrations⟩
  intro other hother
  rcases List.mem_append.mp hother with hheld | hnew
  · exact hw.gates other hheld
  · rw [List.mem_singleton.mp hnew]
    exact hgate

theorem bind_coherent {presentation : GoalSpec → String} {world : PublicationWorld J}
    (hw : world.Coherent) (facts : WorktreeFacts)
    (frozen : Option (Dict String TestRunResolution)) (invocationId : String) :
    (world.bind presentation facts frozen invocationId).Coherent := by
  unfold bind
  cases hbind : bindRun presentation world.records.record facts frozen invocationId with
  | error refusal => exact hw
  | ok bound =>
    obtain ⟨resolved, binding⟩ := bound
    unfold bindRun at hbind
    split_ifs at hbind with hinvocation hactive hpending
    cases hbranch : offGoalBranch world.records.record facts with
    | some reason => simp [hbranch] at hbind
    | none =>
      cases frozen with
      | none =>
        simp only [hbranch, ensureTestRunResolutions, Except.ok.injEq, Prod.mk.injEq] at hbind
        obtain ⟨-, rfl⟩ := hbind
        exact hw.withGate
          (admittedIn_bindingOf List.mem_cons_self (not_not.mp hactive) facts invocationId)
      | some frozen =>
        cases hsave : GoalRecord.save presentation world.records.record
            (world.records.record.updated (.testRunsResolved frozen)) with
        | error refusal => simp [hbranch, ensureTestRunResolutions, hsave] at hbind
        | ok saved =>
          simp only [hbranch, ensureTestRunResolutions, hsave, Except.ok.injEq,
            Prod.mk.injEq] at hbind
          obtain ⟨-, rfl⟩ := hbind
          have hcopy : (world.records.saveCopy presentation world.records.record
              (.testRunsResolved frozen)).Coherent :=
            RecordWorld.saveCopy_coherent hw.records List.mem_cons_self (.testRunsResolved frozen)
          have hsaved : saved.state = .active := by
            rw [(GoalRecord.save_eq_ok hsave).1]
            exact not_not.mp hactive
          have hhistory : (world.records.saveCopy presentation world.records.record
              (.testRunsResolved frozen)).history = saved :: world.records.history := by
            simp only [RecordWorld.saveCopy, hsave]
            rfl
          have hrecords := hw.withRecords hcopy fun version hversion => by
            rw [hhistory]
            exact List.mem_cons_of_mem saved hversion
          refine hrecords.withGate (admittedIn_bindingOf ?_ hsaved facts invocationId)
          rw [hhistory]
          exact List.mem_cons_self

/-- Asking a gate changes no binding. -/
theorem ask_coherent (presentation : GoalSpec → String) {world : PublicationWorld J}
    (hw : world.Coherent) (index : Nat) {gate : PublicationGate} (hgate : gate ∈ world.gates)
    (affected : List String) (facts : WorktreeFacts) :
    (world.ask presentation index gate affected facts).1.Coherent := by
  refine ⟨hw.records, ?_, hw.registrations⟩
  intro other hother
  rcases List.mem_or_eq_of_mem_set hother with hheld | hasked
  · exact hw.gates other hheld
  · have hbinding : other.binding = gate.binding := by
      rw [hasked]
      exact binding_publishing presentation gate _ affected facts
    rw [hbinding]
    exact hw.gates gate hgate

theorem register_coherent {presentation : GoalSpec → String} {world : PublicationWorld J}
    (hw : world.Coherent) {index : Nat} {gate : PublicationGate} (hgate : gate ∈ world.gates)
    (facts : WorktreeFacts) (campaign : StartedCampaign)
    (stamp : TestRunGoal → Option (List (String × String))) (registeredAt : String) :
    (world.register presentation index gate facts campaign stamp registeredAt).Coherent := by
  have hasked := ask_coherent presentation hw index hgate [] facts
  unfold register
  split
  · rename_i asked refusal hask
    rwa [hask] at hasked
  · rename_i asked record hask
    have hrecords : asked.records = world.records :=
      congrArg (fun outcome => outcome.1.records) hask.symm
    rw [hask] at hasked
    split
    · exact hasked
    · rename_i registration hregistered
      obtain ⟨hbinding, hstamps⟩ := specRevision_of_registerCampaign hregistered
      refine ⟨hasked.records, hasked.gates, ?_⟩
      intro other hother
      rcases List.mem_append.mp hother with hheld | hnew
      · simp only [hrecords]
        exact hw.registrations other hheld
      · rw [List.mem_singleton.mp hnew, hbinding]
        simp only [hrecords]
        exact ⟨hw.gates gate hgate, hstamps⟩

section Steps

variable [Digests]

/-- Publishing and adopting only write the ledger. -/
theorem publish_coherent {presentation : GoalSpec → String} {world : PublicationWorld J}
    (hw : world.Coherent) {index : Nat} {gate : PublicationGate} (hgate : gate ∈ world.gates)
    (facts : WorktreeFacts) (changes : List (CriterionChange (Detail J))) (sequences : List Nat)
    (recordedAt : String) :
    (world.publish presentation index gate facts changes sequences recordedAt).Coherent := by
  unfold publish
  simp only
  split
  · exact hw
  · have hasked := ask_coherent presentation hw index hgate
      ((changes.map (·.key)).dedup.insertionSort (· ≤ ·)) facts
    split
    · rename_i asked refusal hask
      rwa [hask] at hasked
    · rename_i asked record hask
      rw [hask] at hasked
      split
      · exact hasked
      · exact ⟨hasked.records, hasked.gates, hasked.registrations⟩

variable [CampaignDigests]

theorem adopt_coherent {presentation : GoalSpec → String} {world : PublicationWorld J}
    (hw : world.Coherent) (registration : CampaignRegistration) (facts : WorktreeFacts)
    (durable : DurableCampaignResults) (key : String) (declared : Option (Bool × Detail J × J))
    (sequence : Nat) (recordedAt : String) :
    (world.adopt presentation registration facts durable key declared sequence
      recordedAt).Coherent := by
  unfold adopt
  simp only
  split_ifs with hclosed
  · exact hw
  · split
    · exact hw
    · split
      · exact ⟨hw.records, hw.gates, hw.registrations⟩
      · exact hw

theorem step_coherent {presentation : GoalSpec → String} {recordFile : String}
    {world : PublicationWorld J} (hw : world.Coherent) (event : PublicationEvent J) :
    (step presentation recordFile world event).Coherent := by
  cases event with
  | record event =>
    refine hw.withRecords (RecordWorld.step_coherent hw.records event) ?_
    intro version hversion
    rcases RecordWorld.step_history presentation recordFile world.records event with
      hsame | ⟨next, hnext⟩
    · rw [hsame]
      exact hversion
    · rw [hnext]
      exact List.mem_cons_of_mem next hversion
  | bind facts frozen invocationId => exact bind_coherent hw facts frozen invocationId
  | reopen index =>
    simp only [step]
    cases hgate : world.gates[index]? with
    | none => exact hw
    | some gate => exact hw.withGate (hw.gates gate (List.mem_of_getElem? hgate))
  | publish index facts changes sequences recordedAt =>
    simp only [step]
    cases hgate : world.gates[index]? with
    | none => exact hw
    | some gate =>
      exact publish_coherent hw (List.mem_of_getElem? hgate) facts changes sequences recordedAt
  | register index facts campaign stamp registeredAt =>
    simp only [step]
    cases hgate : world.gates[index]? with
    | none => exact hw
    | some gate =>
      exact register_coherent hw (List.mem_of_getElem? hgate) facts campaign stamp registeredAt
  | adopt index facts durable key declared sequence recordedAt =>
    simp only [step]
    cases hregistration : world.registrations[index]? with
    | none => exact hw
    | some registration =>
      exact adopt_coherent hw registration facts durable key declared sequence recordedAt
  | deregister index =>
    exact ⟨hw.records, hw.gates, fun registration hmem =>
      hw.registrations registration ((List.eraseIdx_sublist _ _).subset hmem)⟩

theorem run_coherent {presentation : GoalSpec → String} {recordFile : String}
    (events : List (PublicationEvent J)) {world : PublicationWorld J} (hw : world.Coherent) :
    (run presentation recordFile world events).Coherent := by
  induction events generalizing world with
  | nil => exact hw
  | cons event rest ih => exact ih (step_coherent hw event)

end Steps

end PublicationWorld

/-! ## What reaches the ledger -/

/-- A ledger row stems from a run whose Goals are still the ones it was admitted with. It is
past every fence, or an unmet adoption of a campaign's failures. -/
structure StemsFrom (records : RecordWorld) (binding : GoalRunBinding) (row : LedgerRow J) :
    Prop where
  unchanged : Unchanged records binding row.goalKeys
  identity : ∀ named ∈ row.specRevisions, binding.specRevision named.1 = some named.2
  fence : PastFences records.history binding ∨
    (row.met = false ∧ row.detail.adopted.isSome = true)

theorem identityFor_eq_ok {binding : GoalRunBinding} {keys : List String}
    {revisions : List (String × Nat)} (h : identityFor binding keys = .ok revisions) :
    revisions.map (·.1) = keys ∧
      ∀ named ∈ revisions, binding.specRevision named.1 = some named.2 := by
  obtain ⟨named, hnamed, hnonempty⟩ := except_bind_eq_ok.mp h
  split_ifs at hnonempty with hempty
  obtain rfl := Except.ok.inj hnonempty
  clear h hempty hnonempty
  induction keys generalizing named with
  | nil =>
    obtain rfl := Except.ok.inj hnamed
    simp
  | cons key rest ih =>
    rw [List.mapM_cons] at hnamed
    obtain ⟨first, hfirst, hnamed⟩ := except_bind_eq_ok.mp hnamed
    obtain ⟨others, hothers, hnamed⟩ := except_bind_eq_ok.mp hnamed
    obtain rfl := Except.ok.inj hnamed
    obtain ⟨hkeys, hrevisions⟩ := ih others hothers
    cases hadmitted : binding.specRevision key with
    | none => simp [hadmitted] at hfirst
    | some revision =>
      simp only [hadmitted, Except.ok.injEq] at hfirst
      subst hfirst
      refine ⟨by simp [hkeys], ?_⟩
      intro other hother
      rcases List.mem_cons.mp hother with rfl | hrest
      · exact hadmitted
      · exact hrevisions other hrest

/-- A run that may publish for some Goals justifies rows under their identity. -/
theorem stemsFrom_of_publishable {records : RecordWorld} (hrecords : records.Coherent)
    {binding : GoalRunBinding} (hadmitted : AdmittedIn records.history binding)
    {row : LedgerRow J} (hmay : Publishable binding records.record row.goalKeys)
    (hidentity : ∀ named ∈ row.specRevisions, binding.specRevision named.1 = some named.2) :
    StemsFrom records binding row :=
  ⟨unchanged_of_publishable hrecords hadmitted hmay, hidentity,
    .inl (pastFences_of_floor hrecords hmay.fence)⟩

namespace PublicationWorld

section Ledgers

variable [Digests]

theorem publish_ledger (presentation : GoalSpec → String) {world : PublicationWorld J}
    (hw : world.Coherent) (index : Nat) {gate : PublicationGate} (hgate : gate ∈ world.gates)
    (facts : WorktreeFacts) (changes : List (CriterionChange (Detail J))) (sequences : List Nat)
    (recordedAt : String) :
    ∃ rows, (world.publish presentation index gate facts changes sequences recordedAt).ledger =
        world.ledger ++ rows ∧
      ∀ row ∈ rows, StemsFrom world.records gate.binding row := by
  unfold publish
  simp only
  split
  · exact ⟨[], by simp, by simp⟩
  · rename_i revisions hidentity
    obtain ⟨hkeys, hrevisions⟩ := identityFor_eq_ok hidentity
    split
    · rename_i asked refusal hask
      have hledger : asked.ledger = world.ledger :=
        congrArg (fun outcome => outcome.1.ledger) hask.symm
      exact ⟨[], by simp [hledger], by simp⟩
    · rename_i asked record hask
      have hledger : asked.ledger = world.ledger :=
        congrArg (fun outcome => outcome.1.ledger) hask.symm
      split
      · exact ⟨[], by simp [hledger], by simp⟩
      · refine ⟨_, rfl, ?_⟩
        intro row hrow
        obtain ⟨pair, -, rfl⟩ := List.mem_map.mp hrow
        obtain ⟨-, -, hmay⟩ := publishable_of_publishing (congrArg Prod.snd hask)
        refine stemsFrom_of_publishable hw.records (hw.gates gate hgate) ?_ hrevisions
        simp only [ledgerRow, hkeys]
        obtain ⟨hstored, -, -⟩ := publishable_of_publishing (congrArg Prod.snd hask)
        obtain rfl := Except.ok.inj hstored
        exact hmay

variable [CampaignDigests]

/-- What an adoption appends is the Goal's own, and past the fence unless it is unmet. -/
theorem adopt_ledger (presentation : GoalSpec → String) {world : PublicationWorld J}
    (hw : world.Coherent) {registration : CampaignRegistration}
    (hmem : registration ∈ world.registrations) (facts : WorktreeFacts)
    (durable : DurableCampaignResults) (key : String) (declared : Option (Bool × Detail J × J))
    (sequence : Nat) (recordedAt : String) :
    ∃ rows, (world.adopt presentation registration facts durable key declared sequence
        recordedAt).ledger = world.ledger ++ rows ∧
      ∀ row ∈ rows, StemsFrom world.records registration.binding row := by
  obtain ⟨hadmitted, hstamped⟩ := hw.registrations registration hmem
  unfold adopt
  simp only
  split_ifs with hclosed
  · exact ⟨[], by simp, by simp⟩
  rw [not_or, not_or, not_not, not_not, not_not] at hclosed
  obtain ⟨hactive, -, hkey⟩ := hclosed
  split
  · exact ⟨[], by simp, by simp⟩
  rename_i goal hgoal
  split
  · rename_i row hadopt
    refine ⟨[row], rfl, ?_⟩
    intro other hother
    obtain rfl := List.mem_singleton.mp hother
    obtain ⟨hheld, hgoalKey, hdecide⟩ := outcomeGoal?_eq_some hgoal
    -- The key is stamped, so the default of a missing revision is not taken.
    have hbound : registration.binding.specRevision key = some goal.specRevision := by
      obtain ⟨hsorted, hcurrent⟩ := List.mem_filter.mp hkey
      have hsome := hstamped key ((List.mem_insertionSort _).mp hsorted)
      simp only [hgoal, decide_eq_true_eq] at hcurrent
      rw [Option.eq_some_of_isSome hsome] at hcurrent ⊢
      exact congrArg some hcurrent
    obtain ⟨mandatory, params, rest, judged, -, hrows, -, hjudged, rfl⟩ := adoptGoal_eq_some hadopt
    refine ⟨?_, ?_, ?_⟩
    · refine unchanged_of_admitted hw.records hadmitted hactive ?_
      intro named hnamed
      obtain rfl : named = goal.spec.key := by simpa [ledgerRow] using hnamed
      exact ⟨goal.toRecordedGoal, hheld, rfl, hgoalKey ▸ hbound⟩
    · intro named hnamed
      obtain rfl : named = (goal.spec.key, goal.specRevision) := by
        simpa [ledgerRow] using hnamed
      exact hgoalKey ▸ hbound
    · cases htrusted : checkedPublication presentation registration.binding
          (.ok world.records.record) (relevantKeys registration world.records.record) facts with
      | ok record =>
        obtain ⟨hstored, -, hmay⟩ := publishable_of_checked htrusted
        obtain rfl := Except.ok.inj hstored
        exact .inl (pastFences_of_floor hw.records hmay.fence)
      | error refusal =>
        -- Without its gate a campaign only adopts failures.
        rw [htrusted] at hrows hjudged
        obtain ⟨failure, hfailure⟩ := List.exists_mem_of_ne_nil _ hrows
        have hgrade : failure.grade = some "fail" := by
          simpa [adoptedRows, Except.toOption] using (List.mem_filter.mp hfailure).2
        have hunmet : judged.met = false :=
          judged_unmet_of_failure hdecide hfailure hgrade hjudged
        exact .inr ⟨hunmet, rfl⟩
  · exact ⟨[], by simp, by simp⟩

/-- A step leaves the ledger as it is or appends rows that stem from a bound run. -/
theorem step_ledger {presentation : GoalSpec → String} {recordFile : String}
    {world : PublicationWorld J} (hw : world.Coherent) (event : PublicationEvent J) :
    ∃ rows, (step presentation recordFile world event).ledger = world.ledger ++ rows ∧
      ∀ row ∈ rows, ∃ binding, StemsFrom world.records binding row := by
  have hnothing : ∃ rows : List (LedgerRow J), world.ledger = world.ledger ++ rows ∧
      ∀ row ∈ rows, ∃ binding, StemsFrom world.records binding row := ⟨[], by simp, by simp⟩
  cases event with
  | record event => exact hnothing
  | bind facts frozen invocationId =>
    simp only [step, bind]
    split
    · exact hnothing
    · exact hnothing
  | reopen index =>
    simp only [step]
    split
    · exact hnothing
    · exact hnothing
  | publish index facts changes sequences recordedAt =>
    simp only [step]
    cases hgate : world.gates[index]? with
    | none => exact hnothing
    | some gate =>
      obtain ⟨rows, hrows, hstem⟩ := publish_ledger presentation hw index
        (List.mem_of_getElem? hgate) facts changes sequences recordedAt
      exact ⟨rows, hrows, fun row hrow => ⟨gate.binding, hstem row hrow⟩⟩
  | register index facts campaign stamp registeredAt =>
    simp only [step]
    cases hgate : world.gates[index]? with
    | none => exact hnothing
    | some gate =>
      simp only [register]
      split
      · rename_i asked refusal hask
        have hledger : asked.ledger = world.ledger :=
          congrArg (fun outcome => outcome.1.ledger) hask.symm
        exact ⟨[], by simp [hledger], by simp⟩
      · rename_i asked record hask
        have hledger : asked.ledger = world.ledger :=
          congrArg (fun outcome => outcome.1.ledger) hask.symm
        split
        · exact ⟨[], by simp [hledger], by simp⟩
        · exact ⟨[], by simp [hledger], by simp⟩
  | adopt index facts durable key declared sequence recordedAt =>
    simp only [step]
    cases hregistration : world.registrations[index]? with
    | none => exact hnothing
    | some registration =>
      obtain ⟨rows, hrows, hstem⟩ := adopt_ledger presentation hw
        (List.mem_of_getElem? hregistration) facts durable key declared sequence recordedAt
      exact ⟨rows, hrows, fun row hrow => ⟨registration.binding, hstem row hrow⟩⟩
  | deregister index => exact hnothing

end Ledgers

end PublicationWorld

/-- However a lifecycle, its runs and their publications interleave: a gate lets a run through
only for an active record, past every fence and for Goals it was admitted with, and nothing
else reaches the ledger but unmet adoptions. -/
theorem publication_fence [Digests] [CampaignDigests] {entered record published : GoalRecord}
    {goals : List GoalSpec} (hentered : GoalRecord.enter entered goals = .ok record)
    (hcreated : GoalRecord.create record = .ok published)
    (presentation : GoalSpec → String) (recordFile : String)
    (events : List (PublicationEvent J)) :
    let world := PublicationWorld.run presentation recordFile (.created published) events
    (∀ gate ∈ world.gates, ∀ affected facts yielded,
      (gate.publishing presentation (.ok world.records.record) affected facts).2 = .ok yielded →
      facts.pendingApplies = [] ∧ PastFences world.records.history gate.binding ∧
        Unchanged world.records gate.binding affected ∧
        ∀ key ∈ affected, (gate.binding.specRevision key).isSome = true ∧
          gate.binding.specRevision key = world.records.record.specRevisionOf key) ∧
      ∀ event, ∃ rows,
        (world.step presentation recordFile event).ledger = world.ledger ++ rows ∧
        ∀ row ∈ rows, ∃ binding, StemsFrom world.records binding row := by
  intro world
  have hstart : (PublicationWorld.created published : PublicationWorld J).Coherent :=
    ⟨RecordWorld.created_coherent hentered hcreated, by simp [PublicationWorld.created],
      by simp [PublicationWorld.created]⟩
  have hw : world.Coherent := PublicationWorld.run_coherent events hstart
  refine ⟨?_, PublicationWorld.step_ledger hw⟩
  intro gate hgate affected facts yielded hpassed
  obtain ⟨hstored, hpending, hmay⟩ := publishable_of_publishing hpassed
  obtain rfl := Except.ok.inj hstored
  refine ⟨hpending, pastFences_of_floor hw.records hmay.fence,
    unchanged_of_publishable hw.records (hw.gates gate hgate) hmay, ?_⟩
  intro key hkey
  obtain ⟨revision, hbound, hcurrent⟩ := hmay.admitted key hkey
  exact ⟨by rw [hbound]; rfl, hbound.trans hcurrent.symm⟩

end Runs

/-! ## A finish attempt retried after an approved change -/

section Retried

local instance nameDigests : Digests where
  declaredInputs run := run.name
  contents stamps := String.join (stamps.map fun stamp => stamp.1 ++ ":" ++ stamp.2 ++ ",")

local instance joinedDigests : CampaignDigests where
  results pairs := String.join (pairs.map fun pair => pair.1 ++ ":" ++ pair.2 ++ ",")

/-- The worktree of the small record, clean and on its Goal Branch. -/
def lintFacts : WorktreeFacts where
  root := "checkout"
  identity := .ok ⟨"repository", "checkout"⟩
  headRef := .ok (some "refs/heads/main")
  pendingApplies := []
  violations := []
  snapshot := none

/-- A finish attempt frozen at revision 2 is found outdated after the Goal was relaxed; a run
was bound in between. -/
def retriedEvents : List (PublicationEvent Unit) :=
  [.record .load, .record (.save 0 .activated), .record (.prepare lintRelaxed noTestRuns),
    .record (.drive 0 false), .bind lintFacts none "run-1", .record .load,
    .record (.save 2 (.revalidation (some 3)))]

def retriedWorld : PublicationWorld Unit :=
  PublicationWorld.run GoalSpec.key "record.json" (.created lintCreated) retriedEvents

/-- The run was bound at revision 3 and publishes after the revalidation saved as revision 4. -/
theorem run_published_after_revalidation :
    (retriedWorld.gates.map fun gate => (gate.binding.recordRevision,
      (gate.publishing GoalSpec.key (.ok retriedWorld.records.record) ["lint_top"]
        lintFacts).2.toOption.map GoalRecord.revision)) = [(3, some 4)] ∧
      (retriedWorld.records.earlier.head?.map fun previous =>
        ({ previous.updated (.revalidation (some 3)) with revision := 4 } : GoalRecord)) =
        some retriedWorld.records.record := by
  decide

theorem lint_entered : GoalRecord.enter lintEntry [lintGoal 0] =
    .ok { lintEntry with goals := [⟨lintGoal 0, 1⟩] } := by
  decide

/-- The run is past every fence all the same, and its Goal is the one it was admitted with. -/
theorem retried_run_past_fences :
    ∃ gate ∈ retriedWorld.gates, PastFences retriedWorld.records.history gate.binding ∧
      Unchanged retriedWorld.records gate.binding ["lint_top"] := by
  have hcreated : GoalRecord.create { lintEntry with goals := [⟨lintGoal 0, 1⟩] } =
      .ok lintCreated := by decide
  have hpassed : ∀ gate ∈ retriedWorld.gates,
      (gate.publishing GoalSpec.key (.ok retriedWorld.records.record) ["lint_top"]
        lintFacts).2.toOption.isSome = true := by decide
  have hbound : retriedWorld.gates ≠ [] := by decide
  obtain ⟨gate, hgate⟩ := List.exists_mem_of_ne_nil _ hbound
  refine ⟨gate, hgate, ?_⟩
  have hsome := hpassed gate hgate
  cases hyielded : (gate.publishing GoalSpec.key (.ok retriedWorld.records.record) ["lint_top"]
      lintFacts).2 with
  | error refusal =>
    rw [hyielded] at hsome
    cases hsome
  | ok yielded =>
    have hfence := (publication_fence lint_entered hcreated GoalSpec.key "record.json"
      retriedEvents).1 gate hgate ["lint_top"] lintFacts yielded hyielded
    exact ⟨hfence.2.1, hfence.2.2.1⟩

end Retried

end Booley.Goals
