import Booley.Goals.Publication
import Booley.Goals.Verdicts

/-!
# Registered Simulation Campaigns

A campaign a bound run starts is registered before any of its work runs, with the contents
each of its Goals started at. What it durably observed and never published is adopted later:
failures always, passes only while the run that started it could still publish.
-/
namespace Booley.Goals

open Booley.Lib Booley.TestRuns

/-! ## Campaigns and their registrations -/

/-- A Simulation Campaign whose manifest is published and whose work is about to run. -/
structure StartedCampaign where
  manifestPath : String
  campaignId : String
  manifestSha256 : String
  targetNames : List String
  candidate : Bool

/-- The terminal results one campaign holds on disk. `results` names every work item with a
terminal result and that result's digest; `complete` says that no item is without one. -/
structure DurableCampaignResults where
  manifestSha256 : String
  campaignId : String
  results : List (String × String)
  rows : List TestRunRow
  complete : Bool
deriving DecidableEq

/-- One pending campaign a bound run started. `stamps` holds, for each Goal of its Target, the
digests of the source fingerprint of the contents the campaign started at. -/
structure CampaignRegistration where
  campaignId : String
  manifestSha256 : String
  manifestPath : String
  binding : GoalRunBinding
  stamps : Dict String (List (String × String))
  registeredAt : String
deriving DecidableEq

/-- The Goals of a record that name Test Runs, with what judges them. -/
def testRunGoal? (goal : RecordedGoal) : Option TestRunGoal :=
  match hfamily : goal.spec.family, htarget : goal.spec.target with
  | .sim, some target => some ⟨goal, .simulation, target, hfamily, htarget⟩
  | .cycleCount, some target => some ⟨goal, .cycleCount, target, hfamily, htarget⟩
  | .coverage, some target => some ⟨goal, .coverage, target, hfamily, htarget⟩
  | _, _ => none

theorem testRunGoal?_eq_some {goal : RecordedGoal} {judged : TestRunGoal} :
    testRunGoal? goal = some judged → judged.toRecordedGoal = goal := by
  intro h
  unfold testRunGoal? at h
  split at h
  · exact congrArg TestRunGoal.toRecordedGoal (Option.some.inj h).symm
  · exact congrArg TestRunGoal.toRecordedGoal (Option.some.inj h).symm
  · exact congrArg TestRunGoal.toRecordedGoal (Option.some.inj h).symm
  · cases h

/-- The Goals that a Test Run outcome outside their ledger could change. -/
def outcomeGoals (record : GoalRecord) : List TestRunGoal :=
  (record.goals.filterMap testRunGoal?).filter outcomesDecide

/-- The Goal of a key whose outcomes decide it. -/
def outcomeGoal? (record : GoalRecord) (key : String) : Option TestRunGoal :=
  (outcomeGoals record).reverse.find? (·.spec.key = key)

theorem outcomeGoal?_eq_some {record : GoalRecord} {key : String} {goal : TestRunGoal}
    (h : outcomeGoal? record key = some goal) :
    goal.toRecordedGoal ∈ record.goals ∧ goal.spec.key = key ∧ outcomesDecide goal = true := by
  have hmem := List.mem_reverse.mp (List.mem_of_find?_eq_some h)
  have hkey : goal.spec.key = key := by simpa using List.find?_some h
  obtain ⟨hfound, hdecide⟩ := List.mem_filter.mp hmem
  obtain ⟨held, hheld, hjudged⟩ := List.mem_filterMap.mp hfound
  rw [← testRunGoal?_eq_some hjudged] at hheld
  exact ⟨hheld, hkey, hdecide⟩

/-- The Goals a registration stamped that still have the revision its run was bound to. -/
def relevantKeys (registration : CampaignRegistration) (record : GoalRecord) : List String :=
  (registration.stamps.keys.insertionSort (· ≤ ·)).filter fun key =>
    match outcomeGoal? record key with
    | none => false
    | some goal =>
      (registration.binding.specRevision key).getD goal.specRevision = goal.specRevision

/-- The stamps of a campaign with those of one more Goal, if the Goal is admitted and named. -/
def stampGoal (binding : GoalRunBinding) (campaign : StartedCampaign)
    (stamp : TestRunGoal → Option (List (String × String)))
    (stamps : Dict String (List (String × String))) (goal : TestRunGoal) :
    Dict String (List (String × String)) :=
  if goal.target ∈ campaign.targetNames ∧
      binding.specRevision goal.spec.key = some goal.specRevision then
    match stamp goal with
    | some digests => AList.insert goal.spec.key digests stamps
    | none => stamps
  else stamps

/-- Register a campaign as started by a run, with the stamps its Goals have now; a baseline
campaign, or one that no Goal is judged by, is not registered. -/
def registerCampaign (record : GoalRecord) (binding : GoalRunBinding)
    (campaign : StartedCampaign) (stamp : TestRunGoal → Option (List (String × String)))
    (registeredAt : String) : Option CampaignRegistration :=
  let stamps := (outcomeGoals record).foldl (stampGoal binding campaign stamp) ∅
  if !campaign.candidate || stamps.keys.isEmpty then none
  else some ⟨campaign.campaignId, campaign.manifestSha256, campaign.manifestPath, binding, stamps,
    registeredAt⟩

/-- A registration stamps Goals that its run was admitted with, and no others. -/
theorem specRevision_of_registerCampaign {record : GoalRecord} {binding : GoalRunBinding}
    {campaign : StartedCampaign} {stamp : TestRunGoal → Option (List (String × String))}
    {registeredAt : String} {registration : CampaignRegistration}
    (h : registerCampaign record binding campaign stamp registeredAt = some registration) :
    registration.binding = binding ∧
      ∀ key ∈ registration.stamps.keys, (binding.specRevision key).isSome = true := by
  have hfold : ∀ (goals : List TestRunGoal) (stamps : Dict String (List (String × String))),
      (∀ key ∈ stamps.keys, (binding.specRevision key).isSome = true) →
      ∀ key ∈ (goals.foldl (stampGoal binding campaign stamp) stamps).keys,
        (binding.specRevision key).isSome = true := by
    intro goals
    induction goals with
    | nil => exact fun _ hstamps => hstamps
    | cons goal rest ih =>
      intro stamps hstamps
      refine ih _ ?_
      unfold stampGoal
      split_ifs with hadmitted
      · cases stamp goal with
        | none => exact hstamps
        | some digests =>
          intro key hkey
          by_cases hsame : key = goal.spec.key
          · rw [hsame, hadmitted.2]
            rfl
          · refine hstamps key ?_
            simpa [AList.mem_keys, AList.mem_insert, hsame] using hkey
      · exact hstamps
  unfold registerCampaign at h
  simp only at h
  split_ifs at h with hnone
  obtain rfl := Option.some.inj h
  exact ⟨rfl, hfold _ ∅ (by simp)⟩

/-! ## Adopting one Goal's rows -/

section Adoption

variable {J : Type} [Digests]

/-- The digest of what a campaign holds, over its canonical JSON. -/
class CampaignDigests where
  results : List (String × String) → String

variable [CampaignDigests]

/-- What identifies one adoption: the campaign and the results it held. -/
def adoptionMarker (registration : CampaignRegistration) (durable : DurableCampaignResults) :
    AdoptedMarker :=
  ⟨registration.campaignId, registration.manifestSha256, CampaignDigests.results durable.results⟩

/-- What one Goal may adopt of a campaign. -/
def campaignResults (registration : CampaignRegistration) (durable : DurableCampaignResults)
    (key : String) : CampaignResults where
  rows := durable.rows
  marker := adoptionMarker registration durable
  digests := (registration.stamps.lookup key).getD []

/-- The change a Goal adopts, as the ledger row it becomes; `none` when there is nothing to
adopt. `declared` is what the Goal state holds of the Criterion, if anything: whether it is
mandatory, its parameters, and what evaluating its thresholds leaves in a detail. -/
def adoptGoal (record : GoalRecord) (registration : CampaignRegistration)
    (durable : DurableCampaignResults) (goal : TestRunGoal) (passes : Bool)
    (declared : Option (Bool × Detail J × J)) (history : List (LedgerRow J)) (sequence : Nat)
    (recordedAt : String) : Except String (Option (LedgerRow J)) :=
  match declared with
  | none => .ok none
  | some (mandatory, params, rest) => do
    let adopted ← adopt goal record true history
      (campaignResults registration durable goal.spec.key) passes mandatory params rest
    .ok (adopted.map fun change =>
      ledgerRow record [(goal.spec.key, goal.specRevision)] sequence recordedAt change)

/-- What an adoption appends, and when it does. -/
theorem adoptGoal_eq_some {record : GoalRecord} {registration : CampaignRegistration}
    {durable : DurableCampaignResults} {goal : TestRunGoal} {passes : Bool}
    {declared : Option (Bool × Detail J × J)} {history : List (LedgerRow J)} {sequence : Nat}
    {recordedAt : String} {row : LedgerRow J}
    (h : adoptGoal record registration durable goal passes declared history sequence recordedAt =
      .ok (some row)) :
    let results := campaignResults registration durable goal.spec.key
    ∃ mandatory params rest judged, declared = some (mandatory, params, rest) ∧
      adoptedRows (frozenIn goal record) results passes ≠ [] ∧
      alreadyAdopted record history goal.spec.key results = .ok false ∧
      judgedChange (adoptedChange goal (frozenIn goal record) results passes mandatory params rest)
        goal record history = .ok judged ∧
      row = ledgerRow record [(goal.spec.key, goal.specRevision)] sequence recordedAt
        (withMarker judged results) := by
  intro results
  unfold adoptGoal at h
  cases declared with
  | none => simp at h
  | some held =>
    obtain ⟨mandatory, params, rest⟩ := held
    obtain ⟨adopted, hadopt, h⟩ := except_bind_eq_ok.mp h
    cases adopted with
    | none => simp at h
    | some change =>
      simp only [adopt] at hadopt
      split_ifs at hadopt with hrows
      · cases hadopt
      obtain ⟨already, halready, hadopt⟩ := except_bind_eq_ok.mp hadopt
      split_ifs at hadopt with hheld
      · cases hadopt
      obtain ⟨judged, hjudged, hadopt⟩ := except_bind_eq_ok.mp hadopt
      obtain rfl := Option.some.inj (Except.ok.inj hadopt)
      refine ⟨mandatory, params, rest, judged, rfl, ?_, ?_, hjudged, ?_⟩
      · exact fun hempty => hrows (.inl hempty)
      · rw [halready]
        simpa using hheld
      · exact (Option.some.inj (Except.ok.inj h)).symm

omit [CampaignDigests] in
/-- An adoption that holds a failure of a required run is unmet. -/
theorem judged_unmet_of_failure {record : GoalRecord} {history : List (LedgerRow J)}
    {goal : TestRunGoal} (hdecide : outcomesDecide goal = true) {results : CampaignResults}
    {passes mandatory : Bool} {params : Detail J} {rest : J} {failure : TestRunRow}
    (hfailure : failure ∈ adoptedRows (frozenIn goal record) results passes)
    (hgrade : failure.grade = some "fail") {judged : CriterionChange (Detail J)}
    (hjudged : judgedChange (adoptedChange goal (frozenIn goal record) results passes mandatory
      params rest) goal record history = .ok judged) : judged.met = false := by
  rw [Bool.eq_false_iff]
  intro hmet
  obtain ⟨-, houtcome, -⟩ := (judgedChange_met hdecide hjudged).mp hmet
  have hmatching := (List.mem_filter.mp hfailure).1
  have hmatches := (List.mem_filter.mp hmatching).2
  obtain ⟨run, hrun, hkey⟩ := runKey_of_matchesOne hmatches
  have hown : failure ∈ (frozenIn goal record).matching
      (adoptedRows (frozenIn goal record) results passes) :=
    List.mem_filter.mpr ⟨hfailure, hmatches⟩
  have htestRuns : (ownChange (adoptedChange goal (frozenIn goal record) results passes mandatory
      params rest) (frozenIn goal record)).detail.testRuns =
      (frozenIn goal record).matching (adoptedRows (frozenIn goal record) results passes) := by
    by_cases hkind : (frozenIn goal record).kind = .simulation
    · simp [ownChange, adoptedChange, GoalTestRuns.outcomesDetail, hkind]
    · simp [ownChange, adoptedChange, GoalTestRuns.outcomesDetail, hkind]
  refine ((outcomeDefect_fold_eq_none.mp houtcome) run hrun).2 ⟨failure, ?_, ?_, hgrade⟩
  · rw [htestRuns]
    exact List.mem_append_right _ hown
  · exact hkey

end Adoption

end Booley.Goals
