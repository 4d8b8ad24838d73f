import Booley.Coverage.CampaignStore

/-!
# Provisional coverage verdicts

Waiver Candidates are screened against a Campaign that was evaluated strictly and layered on its
points, without matching the approved waivers again. A layered point is counted as it is once the
candidates are approved.
-/
namespace Booley.Coverage

open Booley.Lib Booley.Lib.Json Booley.Goals

/-- Leave-one-out labelling goes over the points for every candidate, so their number is
limited. -/
def maxProvisionalCandidates : Nat := 512

inductive CandidateStatus where
  | offered | notNeeded | stale | invalid
deriving DecidableEq, Repr

/-- The binding of one recorded Waiver Candidate, as the Campaign must confirm it. -/
structure ProvisionalCandidate where
  candidateId : String
  campaignId : String
  targetIdentity : String
  pointId : String
  source : String
  sourceSha256 : String
  reason : String
deriving DecidableEq, Repr

/-- Why one candidate is or is not offered for approval. -/
structure CandidateScreen where
  candidateId : String
  status : CandidateStatus
  reason : String
  needed : Bool
deriving DecidableEq, Repr

/-- What a candidate is bound to beside the points: the Campaign's id, the path and digest of
each RTL record of its source closure, and the digests at the head that is judged, if they are to
be compared. -/
structure CandidateBinding where
  campaignId : String
  rtl : List (String × String)
  currentSources : Option (List (String × String))

/-- Strict status, provisional evaluation, and the screens of the candidates. The ids of the
candidates are part of an evaluation only where it is a provisional one. -/
structure ProvisionalVerdict where
  strictStatus : EvaluationStatus
  evaluation : CoverageEvaluation
  candidateIds : Option (List String)
  screens : List CandidateScreen

def ProvisionalVerdict.offeredIds (verdict : ProvisionalVerdict) : List String :=
  (verdict.screens.filter (·.status == .offered)).map (·.candidateId)

/-! ## Screening -/

/-- The digest of a path in the Campaign's source closure, the last one recorded for it. -/
def CandidateBinding.campaignSource (binding : CandidateBinding) (path : String) :
    Option String :=
  (binding.rtl.filter (·.1 == path)).getLast?.map Prod.snd

section Screening

variable (binding : CandidateBinding) (campaign : CoverageCampaign)
  (candidate : ProvisionalCandidate)

/-- Check the candidate's Campaign, Target, and source binding. -/
def bindingProblem : Option (CandidateStatus × String) :=
  if candidate.campaignId ≠ binding.campaignId then
    some (.stale, "Candidate belongs to a different Coverage Campaign.")
  else if candidate.targetIdentity ≠ campaign.target then
    some (.invalid, "Candidate Target differs from the Campaign Target.")
  else if binding.campaignSource candidate.source ≠ some candidate.sourceSha256 then
    some (.invalid, "Candidate source digest differs from the Campaign's.")
  else if binding.currentSources.any fun sources =>
      sources.lookup candidate.source != some candidate.sourceSha256 then
    some (.stale, "RTL source changed since the Campaign was collected.")
  else
    none

/-- Check that the candidate names one eligible, zero-hit point of its source. -/
def pointProblem : Option (CandidateStatus × String) :=
  match campaign.points.filter (·.id == candidate.pointId) with
  | [point] =>
    if point.identity.source ≠ some candidate.source then
      some (.invalid, "Candidate source differs from the point's RTL source.")
    else if point.disposition.isEligible = false then
      some (.invalid, "Point is not an eligible scored point.")
    else if 0 < (point.hitsByRun.map Prod.snd).sum then
      some (.invalid, "Point has observed hits; it is not waivable as uncovered.")
    else
      none
  | _ => some (.invalid, "Candidate does not name exactly one Coverage Point.")

/-- A rejecting screen, or none when the candidate is usable. -/
def screenOne : Option CandidateScreen :=
  ((bindingProblem binding campaign candidate).or (pointProblem campaign candidate)).map
    fun problem => ⟨candidate.candidateId, problem.1, problem.2, false⟩

end Screening

/-- The candidates that no screen rejects, by the point they name. -/
def usableCandidates (binding : CandidateBinding) (campaign : CoverageCampaign)
    (candidates : List ProvisionalCandidate) : List (String × ProvisionalCandidate) :=
  (candidates.filter fun candidate => (screenOne binding campaign candidate).isNone).foldl
    (fun usable candidate => setItem usable candidate.pointId candidate) []

/-! ## Scoring with the candidates waived -/

/-- The waiver of a candidate. No approval stands behind it, so it has neither an id nor a file. -/
def ProvisionalCandidate.reference (candidate : ProvisionalCandidate) : WaiverReference where
  reason := candidate.reason
  waiverId := ""
  waiverFile := ""
  waiverFingerprint := ""
  provenance := [("candidate_id", .text candidate.candidateId), ("provisional", .flag true)]

def waiveProvisionally (usable : List (String × ProvisionalCandidate)) (point : CoveragePoint) :
    CoveragePoint :=
  match usable.lookup point.id with
  | some candidate => { point with disposition := .waived candidate.reference }
  | none => point

/-- The rollup of a metric, unless it has no eligible point. -/
def openRollup (rollups : List CoverageRollup) (metric : CoverageMetric) : Option CoverageRollup :=
  (rollupFor rollups metric).filter (·.eligiblePoints != 0)

def metricVerdict (evaluation : CoverageEvaluation) (metric : String) : Option MetricVerdict :=
  ((evaluation.metrics.filterMap id).filter (·.metric == metric)).getLast?.map (·.verdict)

/-- The metrics whose verdict is a pass. -/
def passingMetrics (evaluation : CoverageEvaluation) : List String :=
  ((evaluation.metrics.filterMap id).map (·.metric)).filter fun metric =>
    metricVerdict evaluation metric == some .pass

section Scoring

variable (floats : Floats)

def applyCandidates (campaign : CoverageCampaign)
    (usable : List (String × ProvisionalCandidate)) : CoverageCampaign :=
  let points := campaign.points.map (waiveProvisionally usable)
  { campaign with points := points, rollups := campaign.rollups.map (deriveRollup floats points) }

/-- Score the thresholds with the usable candidates waived. -/
def provisionalEvaluation (campaign : CoverageCampaign) (criterion : CoverageCriterion)
    (usable : List (String × ProvisionalCandidate)) : CoverageEvaluation :=
  let waived := applyCandidates floats campaign usable
  let diagnostics := (criterion.ordered.filter fun item =>
    (openRollup waived.rollups item.metric).isNone).map fun item =>
      (⟨"COV_EVAL_EMPTY_DENOMINATOR", "/rollups",
        "Candidates leave no eligible points: " ++ metricText item.metric ++ "."⟩ : Diagnostic)
  let metrics := criterion.ordered.filterMap fun item =>
    (openRollup waived.rollups item.metric).map fun rollup => metricResult floats rollup item
  { campaign.evaluation with
    status := if diagnostics.isEmpty then
        if metrics.all (·.verdict == .pass) then .pass else .fail
      else .blocked
    metrics := metrics.map some
    diagnostics := diagnostics }

/-- The ids of the candidates whose removal alone would fail a metric that passes
provisionally. -/
def neededIds (campaign : CoverageCampaign) (criterion : CoverageCriterion)
    (usable : List (String × ProvisionalCandidate)) (evaluation : CoverageEvaluation) :
    List String :=
  (usable.filter fun entry =>
    let remaining := usable.filter (·.1 != entry.1)
    let without := provisionalEvaluation floats campaign criterion remaining
    (passingMetrics evaluation).any fun metric =>
      metricVerdict without metric != some .pass).map (·.2.candidateId)

def offeredScreen (needed : List String) (candidate : ProvisionalCandidate) : CandidateScreen :=
  ⟨candidate.candidateId, .offered, "Eligible zero-hit point of this Campaign.",
    needed.contains candidate.candidateId⟩

def sortedScreens (screens : List CandidateScreen) : List CandidateScreen :=
  screens.insertionSort fun a b => a.candidateId ≤ b.candidateId

/-- The provisional verdict of one strictly evaluated Campaign. Only a scored strict failure can be
rescued: a pass needs no candidates, and what blocks an evaluation no waiver resolves. -/
def evaluateProvisionalCoverage (binding : CandidateBinding) (campaign : CoverageCampaign)
    (criterion : CoverageCriterion) (candidates : List ProvisionalCandidate) :
    Except ProvisionalCoverageError ProvisionalVerdict :=
  if maxProvisionalCandidates < candidates.length then
    .error (.tooManyCandidates candidates.length)
  else
    let strictStatus := campaign.evaluation.status
    let usable := usableCandidates binding campaign candidates
    let rejected := candidates.filterMap (screenOne binding campaign)
    if strictStatus = .fail then
      let evaluation := provisionalEvaluation floats campaign criterion usable
      let needed := neededIds floats campaign criterion usable evaluation
      let offered := usable.map fun entry => offeredScreen needed entry.2
      .ok
        { strictStatus := strictStatus
          evaluation := evaluation
          candidateIds := some (sortedTests (usable.map (·.2.candidateId)))
          screens := sortedScreens (rejected ++ offered) }
    else
      let status : CandidateStatus := if strictStatus = .pass then .notNeeded else .invalid
      let reason := "Strict coverage evaluation is " ++ evaluationStatusText strictStatus ++ "."
      .ok
        { strictStatus := strictStatus
          evaluation := campaign.evaluation
          candidateIds := none
          screens := sortedScreens (rejected ++
            usable.map fun entry => ⟨entry.2.candidateId, status, reason, false⟩) }

end Scoring

/-! ## The points of both evaluations -/

variable {floats : Floats} {campaign : CoverageCampaign} {binding : CandidateBinding}

section Usable

variable {candidates : List ProvisionalCandidate}

theorem mem_usable {entry : String × ProvisionalCandidate}
    (h : entry ∈ usableCandidates binding campaign candidates) :
    entry.2 ∈ candidates ∧ screenOne binding campaign entry.2 = none ∧
      entry.1 = entry.2.pointId := by
  rcases mem_foldl_setItem h with ⟨hmem, hkey⟩ | hnil
  · obtain ⟨hcandidate, husable⟩ := List.mem_filter.mp hmem
    exact ⟨hcandidate, Option.isNone_iff_eq_none.mp husable, hkey⟩
  · cases hnil

/-- A usable candidate is of the Campaign's Target and names one eligible point of its source. -/
theorem usable_point {candidate : ProvisionalCandidate}
    (h : screenOne binding campaign candidate = none) :
    candidate.targetIdentity = campaign.target ∧
      ∃ point, campaign.points.filter (·.id == candidate.pointId) = [point] ∧
        point.identity.source = some candidate.source ∧
        point.disposition.isEligible = true := by
  obtain ⟨hbinding, hpoint⟩ := Option.or_eq_none_iff.mp (Option.map_eq_none_iff.mp h)
  constructor
  · by_contra htarget
    unfold bindingProblem at hbinding
    rw [if_pos htarget] at hbinding
    split at hbinding <;> cases hbinding
  · unfold pointProblem at hpoint
    split at hpoint
    next point hone =>
      refine ⟨point, hone, ?_⟩
      by_cases hsource : point.identity.source = some candidate.source
      · refine ⟨hsource, ?_⟩
        by_contra heligible
        rw [if_neg (not_not.mpr hsource), if_pos (by simpa using heligible)] at hpoint
        cases hpoint
      · rw [if_pos hsource] at hpoint
        cases hpoint
    next => cases hpoint

theorem screenOne_rejects {candidate : ProvisionalCandidate} {screen : CandidateScreen}
    (h : screenOne binding campaign candidate = some screen) :
    screen.candidateId = candidate.candidateId ∧ screen.status ≠ .offered ∧
      screen.needed = false := by
  obtain ⟨problem, hproblem, rfl⟩ := Option.map_eq_some_iff.mp h
  refine ⟨rfl, ?_, rfl⟩
  rcases Option.or_eq_some_iff.mp hproblem with hbinding | ⟨-, hpoint⟩
  · unfold bindingProblem at hbinding
    split_ifs at hbinding <;> (cases hbinding; simp)
  · unfold pointProblem at hpoint
    split at hpoint
    · split_ifs at hpoint <;> (cases hpoint; simp)
    · cases hpoint
      simp

end Usable

theorem waivePoint_waived (waivers : List ApprovedWaiver) {point : CoveragePoint}
    (h : point.disposition.isWaived = false) :
    (waivePoint campaign waivers point).disposition.isWaived =
      (point.disposition.isEligible && !scored campaign waivers point) := by
  rw [← waivePoint_eligible]
  unfold waivePoint
  cases hwaiver : waiverOf campaign waivers point <;> cases hkind : point.disposition <;>
    simp_all [Disposition.isEligible, Disposition.isWaived]

theorem waivePoint_kept (waivers : List ApprovedWaiver) (point : CoveragePoint) :
    (waivePoint campaign waivers point).id = point.id ∧
      (waivePoint campaign waivers point).hitsByRun = point.hitsByRun := by
  unfold waivePoint
  split <;> exact ⟨rfl, rfl⟩

theorem waiveProvisionally_kept (usable : List (String × ProvisionalCandidate))
    (point : CoveragePoint) :
    (waiveProvisionally usable point).identity = point.identity ∧
      (waiveProvisionally usable point).hitsByRun = point.hitsByRun := by
  unfold waiveProvisionally
  split <;> exact ⟨rfl, rfl⟩

/-- An approval of the Campaign's Target names the point. -/
def named (campaign : CoverageCampaign) (waivers : List ApprovedWaiver) (point : CoveragePoint) :
    Bool :=
  waivers.any fun waiver => waiver.target == campaign.target && waiver.pointId == point.id

theorem named_filter (waivers : List ApprovedWaiver) (point : CoveragePoint) :
    named campaign (waivers.filter (·.target == campaign.target)) point =
      named campaign waivers point := by
  unfold named
  rw [List.any_filter]
  simp

theorem scored_filter (waivers : List ApprovedWaiver) (point : CoveragePoint) :
    scored campaign (waivers.filter (·.target == campaign.target)) point =
      scored campaign waivers point := by
  show (_ && !named campaign _ point) = (_ && !named campaign waivers point)
  rw [named_filter]

section Layered

variable {waivers approved : List ApprovedWaiver} {usable : List (String × ProvisionalCandidate)}

/-- A point with its candidate on top of the old approvals is counted as with the new ones. -/
theorem countedAlike_layered {point : CoveragePoint}
    (hunwaived : point.disposition.isWaived = false)
    (hnamed : named campaign approved point =
      (named campaign waivers point || (usable.lookup point.id).isSome))
    (heligible : (usable.lookup point.id).isSome = true →
      (waivePoint campaign waivers point).disposition.isEligible = true) :
    CountedAlike (waiveProvisionally usable (waivePoint campaign waivers point))
      (waivePoint campaign approved point) := by
  have hscored : scored campaign approved point =
      (scored campaign waivers point && !(usable.lookup point.id).isSome) := by
    show (_ && !named campaign approved point) = (_ && !named campaign waivers point && _)
    rw [hnamed, Bool.not_or, Bool.and_assoc]
  obtain ⟨hid, hhits⟩ := @waivePoint_kept campaign waivers point
  obtain ⟨hidentity, hhits'⟩ := waiveProvisionally_kept usable (waivePoint campaign waivers point)
  constructor
  · rw [hidentity, waivePoint_identity, waivePoint_identity]
  · rw [waivePoint_eligible, hscored]
    unfold waiveProvisionally
    rw [hid]
    cases hlookup : usable.lookup point.id with
    | none => simp [waivePoint_eligible]
    | some candidate => simp [Disposition.isEligible]
  · rw [waivePoint_waived approved hunwaived, hscored]
    unfold waiveProvisionally
    rw [hid]
    cases hlookup : usable.lookup point.id with
    | none => simp [waivePoint_waived waivers hunwaived]
    | some candidate =>
      rw [hlookup] at heligible
      have hpoint := (waivePoint_eligible waivers point).symm.trans (heligible rfl)
      have hkind := (Bool.and_eq_true_iff.mp hpoint).1
      simp [hkind, Disposition.isWaived]
  · rw [hhits', hhits, (waivePoint_kept approved point).2]

end Layered

end Booley.Coverage
