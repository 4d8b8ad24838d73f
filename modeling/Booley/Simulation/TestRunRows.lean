import Booley.Simulation.Observations

/-!
# The Test Run rows of one campaign

Every observation of the acceptance facts, joined with the Test Run its manifest records. The join
gives each observation one row, with the name and the fingerprint the facts state for it.
-/
namespace Booley.Simulation

open Booley.Lib Booley.TestRuns

variable [Digests]

/-! ## A campaign outcome -/

/-- A baseline observation that a Cycle Count is compared with. -/
structure PrerequisiteFact where
  role : String
  campaignId : String
  manifestOwner : String
  target : TargetDocument
  workItemId : Option String
  test : Option String
  testRun : String
  testRunFingerprint : String
  cycleCount : Nat

/-- What a nested Coverage Campaign evaluated: its status, whether its suite matched, whether it
has diagnostics, and the verdict of each metric. -/
structure CoverageEvidence where
  status : String
  suiteMatches : Bool
  diagnosed : Bool
  verdicts : List (String × String)
  criterionFingerprint : Option String

inductive CoverageError where
  | disagrees
  | atomicMetric
  | omitsMetric (metric : String)
deriving DecidableEq, Repr

/-- One campaign, complete or interrupted, and the facts of the results it has. Its facts name
every Test Run once. -/
structure CampaignOutcome where
  manifest : SimulationCampaignManifest
  /-- The manifest file can be read, and is the one whose digest the facts name. -/
  authenticated : Bool
  collected : List (WorkItem × List ResultObservation)
  planned : ∀ entry ∈ collected, entry.1 ∈ manifest.workItems
  accepted : ∀ entry ∈ collected, ∀ observation ∈ entry.2, observation.valid = true
  facts : List ObservationFact
  built : collectedResultFacts collected = .ok facts
  named : ∀ fact ∈ facts, fact.testRun ≠ ""
  once : (facts.map (·.testRun)).Nodup
  complete : Bool
  aggregateGrade : String
  manifestSha256 : String
  factsSha256 : String
  prerequisites : List PrerequisiteFact
  /-- The Coverage Campaign the facts name, when they name one that can be resolved. -/
  coverageReference : Option (Except CoverageError CoverageEvidence)

/-! ## Rows -/

/-- One Test Run row of a campaign; only a failed one says how it failed. -/
structure EvidenceRow extends TestRunRow where
  functionalFailure : Option Bool
  failureExecution : Option ExecutionObservation

/-- Every Test Run a manifest records, by work item and Test Run name; an unnamed one is also
recorded under no name. -/
def manifestTestRuns (manifest : SimulationCampaignManifest) :
    List ((String × String) × TestRun) :=
  manifest.workItems.flatMap fun item => item.testRuns.flatMap fun run =>
    ((item.workItemId, run.name), run) ::
      if run.test.isNone then [((item.workItemId, ""), run)] else []

/-- The run recorded under a key, the last one where several are. -/
def recordedUnder (recorded : List ((String × String) × TestRun)) (key : String × String) :
    Option TestRun :=
  (recorded.filter (·.1 == key)).getLast?.map (·.2)

/-- The Test Run an observation names, as the manifest recorded it. -/
def observedRun (recorded : List ((String × String) × TestRun)) (fact : ObservationFact) :
    Option TestRun :=
  match recordedUnder recorded (fact.workItemId, fact.testRun) with
  | some run => some run
  | none =>
    match recordedUnder recorded (fact.workItemId, ""), fact.observation.test with
    | some unnamed, some test => some (discoveredTestRun test unnamed)
    | _, _ => none

def testRunRow (name fingerprint : String) (observation : ResultObservation) : EvidenceRow :=
  let functional := observation.execution = .completed &&
    observation.failureClass ≠ some .infrastructure &&
    (observation.functional = .fail || observation.assertions = .dirty)
  { name := some name
    fingerprint := some fingerprint
    grade := some observation.grade
    functionalFailure := if observation.grade = "fail" then some functional else none
    failureExecution := if observation.grade = "fail" ∧ functional = false
      then some observation.execution else none }

/-- One row per observation fact, from the Test Runs the manifest records. -/
def observationTestRunRows (manifest : SimulationCampaignManifest) :
    List ObservationFact → Except IntegrityError (List EvidenceRow)
  | [] => .ok []
  | fact :: rest =>
    match observedRun (manifestTestRuns manifest) fact with
    | none => .error (.unrecorded fact.testRun)
    | some run =>
      if run.fingerprint ≠ fact.testRunFingerprint then
        .error (.unrecorded fact.testRun)
      else do
        let rows ← observationTestRunRows manifest rest
        .ok (testRunRow run.name run.fingerprint fact.observation :: rows)

/-- The rows of a campaign, authenticated for evidence. -/
def evidenceTestRunRows (outcome : CampaignOutcome) : Except IntegrityError (List EvidenceRow) :=
  if outcome.authenticated then
    observationTestRunRows outcome.manifest outcome.facts
  else
    .error .notTheManifest

/-! ## What the join gives -/

/-- The run a fact was bound to, as its work item records it. -/
def Bound (manifest : SimulationCampaignManifest) (fact : ObservationFact) : Prop :=
  ∃ item ∈ manifest.workItems, fact.workItemId = item.workItemId ∧
    ((∃ run ∈ item.testRuns, fact.testRun = run.name ∧ fact.testRunFingerprint = run.fingerprint) ∨
      ∃ unnamed test, item.unnamed = some unnamed ∧ fact.observation.test = some test ∧
        fact.testRun = (discoveredTestRun test unnamed).name ∧
        fact.testRunFingerprint = (discoveredTestRun test unnamed).fingerprint)

omit [Digests] in
theorem bindTestRuns_spec {item : WorkItem} {taken : List (Option String)}
    {results : List ResultObservation} {bound : List TestRun}
    (h : bindTestRuns item taken results = .ok bound) :
    ∀ pair ∈ results.zip bound, pair.2 ∈ item.testRuns ∨
      ∃ unnamed test, item.unnamed = some unnamed ∧ pair.1.test = some test ∧
        pair.2 = discoveredTestRun test unnamed := by
  induction results generalizing taken bound with
  | nil =>
    intro pair hpair
    cases hpair
  | cons observation rest ih =>
    unfold bindTestRuns at h
    split at h
    next unnamed test hunnamed htest =>
      obtain ⟨others, hothers, h⟩ := except_bind_eq_ok.mp h
      cases h
      intro pair hpair
      rcases List.mem_cons.mp hpair with rfl | hpair
      · exact .inr ⟨unnamed, test, hunnamed, htest, rfl⟩
      · exact ih hothers pair hpair
    next =>
      dsimp only at h
      split at h
      · cases h
      next run hrun =>
        obtain ⟨others, hothers, h⟩ := except_bind_eq_ok.mp h
        cases h
        intro pair hpair
        rcases List.mem_cons.mp hpair with rfl | hpair
        · exact .inl (List.mem_of_mem_filter (List.mem_of_getElem? hrun))
        · exact ih hothers pair hpair

theorem bound_of_collected {manifest : SimulationCampaignManifest}
    {collected : List (WorkItem × List ResultObservation)} {facts : List ObservationFact}
    (hplanned : ∀ entry ∈ collected, entry.1 ∈ manifest.workItems)
    (h : collectedResultFacts collected = .ok facts) : ∀ fact ∈ facts, Bound manifest fact := by
  induction collected generalizing facts with
  | nil =>
    cases h
    exact fun fact hfact => absurd hfact List.not_mem_nil
  | cons entry rest ih =>
    obtain ⟨item, results⟩ := entry
    obtain ⟨own, hown, h⟩ := except_bind_eq_ok.mp h
    obtain ⟨others, hothers, h⟩ := except_bind_eq_ok.mp h
    cases h
    intro fact hfact
    rcases List.mem_append.mp hfact with hfact | hfact
    · obtain ⟨bound, hbound, hown⟩ := except_bind_eq_ok.mp hown
      cases hown
      obtain ⟨pair, hpair, rfl⟩ := List.mem_map.mp hfact
      refine ⟨item, hplanned _ List.mem_cons_self, rfl, ?_⟩
      rcases bindTestRuns_spec hbound pair hpair with hrun | ⟨unnamed, test, hunnamed, htest, heq⟩
      · exact .inl ⟨pair.2, hrun, rfl, rfl⟩
      · exact .inr ⟨unnamed, test, hunnamed, htest, heq ▸ rfl, heq ▸ rfl⟩
    · exact ih (fun entry hentry => hplanned entry (List.mem_cons_of_mem _ hentry)) hothers
        fact hfact

section Joined

variable {manifest : SimulationCampaignManifest}

omit [Digests] in
theorem mem_manifestTestRuns {id name : String} {run : TestRun} :
    ((id, name), run) ∈ manifestTestRuns manifest ↔
      ∃ item ∈ manifest.workItems, item.workItemId = id ∧ run ∈ item.testRuns ∧
        (run.name = name ∨ run.test = none ∧ name = "") := by
  simp only [manifestTestRuns, List.mem_flatMap, List.mem_cons]
  constructor
  · rintro ⟨item, hitem, own, hown, heq | hmem⟩
    · cases heq
      exact ⟨item, hitem, rfl, hown, .inl rfl⟩
    · cases htest : own.test with
      | some test => simp [htest] at hmem
      | none =>
        have heq : ((id, name), run) = ((item.workItemId, ""), own) := by simpa [htest] using hmem
        cases heq
        exact ⟨item, hitem, rfl, hown, .inr ⟨htest, rfl⟩⟩
  · rintro ⟨item, hitem, rfl, hrun, rfl | ⟨htest, rfl⟩⟩
    · exact ⟨item, hitem, run, hrun, .inl rfl⟩
    · exact ⟨item, hitem, run, hrun, .inr (by simp [htest])⟩

omit [Digests] in
theorem recordedUnder_eq_some {recorded : List ((String × String) × TestRun)}
    {key : String × String} {run : TestRun} (h : recordedUnder recorded key = some run) :
    (key, run) ∈ recorded := by
  obtain ⟨entry, hentry, rfl⟩ := Option.map_eq_some_iff.mp h
  obtain ⟨hmem, hkey⟩ := List.mem_filter.mp (List.mem_of_getLast? hentry)
  rw [← eq_of_beq hkey]
  exact hmem

omit [Digests] in
theorem exists_recordedUnder {recorded : List ((String × String) × TestRun)}
    {key : String × String} {run : TestRun} (h : (key, run) ∈ recorded) :
    ∃ found, recordedUnder recorded key = some found := by
  have hsome : ((recorded.filter (·.1 == key)).getLast?).isSome := by
    rw [List.getLast?_isSome]
    exact List.ne_nil_of_mem (List.mem_filter.mpr ⟨h, beq_self_eq_true key⟩)
  obtain ⟨entry, hentry⟩ := Option.isSome_iff_exists.mp hsome
  exact ⟨entry.2, by rw [recordedUnder, hentry]; rfl⟩

omit [Digests] in
/-- The unnamed run found for a work item is the one invocation it consists of. -/
theorem eq_unnamed {item : WorkItem} (hitem : item ∈ manifest.workItems) {single unnamed : TestRun}
    (hsingle : item.unnamed = some single)
    (h : recordedUnder (manifestTestRuns manifest) (item.workItemId, "") = some unnamed) :
    unnamed = single := by
  obtain ⟨holder, hholder, hid, hmem, -⟩ := mem_manifestTestRuns.mp (recordedUnder_eq_some h)
  obtain rfl : holder = item := List.inj_on_of_nodup_map manifest.unique hholder hitem hid
  unfold WorkItem.unnamed at hsingle
  split at hsingle
  next run hruns =>
    rw [hruns, List.mem_singleton] at hmem
    split at hsingle
    · exact hmem.trans (Option.some.inj hsingle)
    · cases hsingle
  · cases hsingle

/-- A run found for a bound fact has the name the fact states. -/
theorem name_of_observedRun {fact : ObservationFact} {run : TestRun} (hbound : Bound manifest fact)
    (hnamed : fact.testRun ≠ "") (h : observedRun (manifestTestRuns manifest) fact = some run) :
    run.name = fact.testRun := by
  obtain ⟨item, hitem, hid, hrun⟩ := hbound
  unfold observedRun at h
  split at h
  next found hfound =>
    cases h
    obtain ⟨other, -, -, -, hname | ⟨-, hempty⟩⟩ :=
      mem_manifestTestRuns.mp (recordedUnder_eq_some hfound)
    · exact hname
    · exact absurd hempty hnamed
  next hmissing =>
    split at h
    next unnamed test hunnamed htest =>
      cases h
      rcases hrun with ⟨own, hown, hname, -⟩ | ⟨single, other, hsingle, hother, hname, -⟩
      · -- a run of the item is recorded under its own name
        obtain ⟨found, hfound⟩ := exists_recordedUnder
          (mem_manifestTestRuns.mpr ⟨item, hitem, hid.symm, hown, .inl hname.symm⟩)
        rw [hfound] at hmissing
        cases hmissing
      · obtain rfl : test = other := Option.some.inj (htest.symm.trans hother)
        have hfound := hunnamed
        rw [hid] at hfound
        rw [eq_unnamed hitem hsingle hfound, hname]
    · cases h

end Joined

/-- The row that the facts determine for an observation. -/
def ObservationFact.row (fact : ObservationFact) : EvidenceRow :=
  testRunRow fact.testRun fact.testRunFingerprint fact.observation

omit [Digests] in
@[simp] theorem ObservationFact.row_name (fact : ObservationFact) :
    fact.row.name = some fact.testRun := rfl

omit [Digests] in
@[simp] theorem ObservationFact.row_fingerprint (fact : ObservationFact) :
    fact.row.fingerprint = some fact.testRunFingerprint := rfl

omit [Digests] in
@[simp] theorem ObservationFact.row_grade (fact : ObservationFact) :
    fact.row.grade = some fact.observation.grade := rfl

theorem observationTestRunRows_eq {manifest : SimulationCampaignManifest}
    {facts : List ObservationFact} {rows : List EvidenceRow}
    (hbound : ∀ fact ∈ facts, Bound manifest fact) (hnamed : ∀ fact ∈ facts, fact.testRun ≠ "")
    (h : observationTestRunRows manifest facts = .ok rows) :
    rows = facts.map ObservationFact.row := by
  induction facts generalizing rows with
  | nil =>
    cases h
    rfl
  | cons fact rest ih =>
    unfold observationTestRunRows at h
    split at h
    · cases h
    next run hrun =>
      split at h
      · cases h
      next hfingerprint =>
        obtain ⟨others, hothers, h⟩ := except_bind_eq_ok.mp h
        cases h
        have hname := name_of_observedRun (hbound fact List.mem_cons_self)
          (hnamed fact List.mem_cons_self) hrun
        have hrest := ih (fun other hother => hbound other (List.mem_cons_of_mem _ hother))
          (fun other hother => hnamed other (List.mem_cons_of_mem _ hother)) hothers
        rw [not_not.mp hfingerprint, hname, hrest]
        rfl

/-- The rows of a campaign are the rows of its facts, in their order. -/
theorem evidenceTestRunRows_eq {outcome : CampaignOutcome} {rows : List EvidenceRow}
    (h : evidenceTestRunRows outcome = .ok rows) :
    rows = outcome.facts.map ObservationFact.row := by
  unfold evidenceTestRunRows at h
  split at h
  · exact observationTestRunRows_eq (bound_of_collected outcome.planned outcome.built)
      outcome.named h
  · cases h

end Booley.Simulation
