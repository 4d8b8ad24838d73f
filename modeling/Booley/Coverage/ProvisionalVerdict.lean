import Booley.Coverage.Provisional
import Booley.Lib.Keyed

/-!
# Approving what was offered

The provisional evaluation has the status, and unless it is blocked the rows, of the strict
evaluation that follows once every offered candidate is approved.
-/
namespace Booley.Coverage

open Booley.Lib Booley.Lib.Json Booley.Goals

variable {floats : Floats} {campaign : CoverageCampaign} {binding : CandidateBinding}

/-! ## The verdict after approval -/

theorem openRollup_isSome {rollups : List CoverageRollup} {metric : CoverageMetric} :
    (openRollup rollups metric).isSome = true ↔
      ∃ rollup, rollupFor rollups metric = some rollup ∧ rollup.eligiblePoints ≠ 0 := by
  unfold openRollup
  cases rollupFor rollups metric <;> simp

theorem openRollup_of_isSome {rollups : List CoverageRollup} {metric : CoverageMetric}
    (h : (openRollup rollups metric).isSome = true) :
    openRollup rollups metric = rollupFor rollups metric := by
  obtain ⟨rollup, hrollup, heligible⟩ := openRollup_isSome.mp h
  rw [openRollup, hrollup, Option.filter_some, if_pos (bne_iff_ne.mpr heligible)]

/-- What approving the usable candidates of an evaluated Campaign makes of its approvals. -/
structure Approving (campaign : CoverageCampaign) (waivers approved : List ApprovedWaiver)
    (usable : List (String × ProvisionalCandidate)) : Prop where
  named : ∀ point, named campaign approved point =
    (named campaign waivers point || (usable.lookup point.id).isSome)
  matched : ∀ waiver ∈ approved, waiver.target = campaign.target → waiver.Matches campaign
  eligible : ∀ point ∈ campaign.points, (usable.lookup point.id).isSome = true →
    scored campaign waivers point = true

section Approved

variable {criterion : CoverageCriterion} {sha256 : CriterionPayload → String}
  {waivers approved : ApprovedWaiverSet} {usable : List (String × ProvisionalCandidate)}
  (hcampaign : Coherent floats campaign) (hunwaived : Unwaived campaign)
  (h : Evaluable campaign waivers.waivers criterion)
  (happroving : Approving campaign waivers.waivers approved.waivers usable)
include hcampaign hunwaived h happroving

theorem rollups_approved :
    (applyCandidates floats (evaluateCoverageCampaign floats sha256 campaign (some criterion)
        waivers) usable).rollups = (waivedCampaign floats campaign approved).rollups := by
  have hnormal := hcampaign.normalized h.collected
  obtain ⟨hmatched, hwaivers⟩ := matchCampaign_spec approved.waivers hnormal
  have hnew : waivedCampaign floats campaign approved =
      applyWaivers floats campaign (approved.waivers.filter (·.target == campaign.target)) := by
    rw [waivedCampaign, hwaivers (hmatched.mpr happroving.matched)]
  have hrollups : (applyCandidates floats (evaluateCoverageCampaign floats sha256 campaign
      (some criterion) waivers) usable).rollups =
      campaign.rollups.map (deriveRollup floats ((campaign.points.map (waivePoint campaign
        (waivers.waivers.filter (·.target == campaign.target)))).map
          (waiveProvisionally usable))) := by
    simp only [applyCandidates, evaluated_rollups, evaluated_points,
      waivedCampaign_eq hcampaign h, applyWaivers, List.map_map, Function.comp_def,
      deriveRollup_deriveRollup]
  rw [hrollups, hnew]
  refine List.map_congr_left fun rollup _ => (deriveRollup_alike ?_ rollup).symm
  rw [List.map_map, List.forall₂_map_left_iff, List.forall₂_map_right_iff, List.forall₂_same]
  intro point hpoint
  refine countedAlike_layered (hunwaived point hpoint) ?_ fun husable => ?_
  · rw [named_filter, named_filter]
    exact happroving.named point
  · rw [waivePoint_eligible, scored_filter]
    exact happroving.eligible point hpoint husable

theorem denominators_approved (metric : CoverageMetric) :
    (openRollup (applyCandidates floats (evaluateCoverageCampaign floats sha256 campaign
        (some criterion) waivers) usable).rollups metric).isSome = true ↔
      scoredPoints campaign approved.waivers metric ≠ [] := by
  obtain ⟨hmatched, hwaivers⟩ :=
    matchCampaign_spec approved.waivers (hcampaign.normalized h.collected)
  rw [openRollup_isSome, rollups_approved hcampaign hunwaived h happroving, waivedCampaign,
    hwaivers (hmatched.mpr happroving.matched), denominator_iff hcampaign h.collected,
    scoredPoints_filter]

/-- After approval the Campaign can be scored when every threshold is left a denominator. -/
theorem evaluable_approved : Evaluable campaign approved.waivers criterion ↔
    ∀ item ∈ criterion.thresholds, (openRollup (applyCandidates floats
      (evaluateCoverageCampaign floats sha256 campaign (some criterion) waivers)
        usable).rollups item.metric).isSome = true := by
  simp only [denominators_approved hcampaign hunwaived h happroving]
  constructor
  · intro hnew
    exact hnew.denominators
  · intro hdenominators
    exact
      { target := h.target
        suite := h.suite
        collected := h.collected
        normalized := h.normalized
        available := h.available
        denominators := hdenominators
        waived := happroving.matched }

/-- The provisional evaluation has the status that the Campaign has once the candidates are
approved, and the rows it then has; where nothing can be scored any more there are none. -/
theorem provisional_approved :
    let strict := evaluateCoverageCampaign floats sha256 campaign (some criterion) approved
    let provisional := provisionalEvaluation floats
      (evaluateCoverageCampaign floats sha256 campaign (some criterion) waivers) criterion usable
    strict.evaluation.status = provisional.status ∧
      strict.evaluation.metrics =
        if provisional.status = .blocked then [] else provisional.metrics := by
  intro strict provisional
  have hevaluable := @evaluable_approved floats campaign criterion sha256 waivers approved usable
    hcampaign hunwaived h happroving
  by_cases hnew : Evaluable campaign approved.waivers criterion
  · have hopen := fun item hitem => hevaluable.mp hnew item (mem_ordered.mp hitem)
    have hrows : criterion.ordered.filterMap (fun item => (openRollup (applyCandidates floats
          (evaluateCoverageCampaign floats sha256 campaign (some criterion) waivers)
            usable).rollups item.metric).map fun rollup => metricResult floats rollup item) =
        scoredRows floats (waivedCampaign floats campaign approved) criterion := by
      refine List.filterMap_congr fun item hitem => ?_
      rw [openRollup_of_isSome (hopen item hitem),
        rollups_approved hcampaign hunwaived h happroving]
    have hclear : (criterion.ordered.filter fun item => (openRollup (applyCandidates floats
        (evaluateCoverageCampaign floats sha256 campaign (some criterion) waivers)
          usable).rollups item.metric).isNone) = [] := by
      refine List.filter_eq_nil_iff.mpr fun item hitem => ?_
      simpa [Option.isNone_iff_eq_none, Option.isSome_iff_ne_none] using hopen item hitem
    have hprovisional : provisional.status = strict.evaluation.status ∧
        provisional.metrics = strict.evaluation.metrics := by
      constructor
      · rw [show strict.evaluation.status = _ from status_of_evaluable sha256 hcampaign hnew]
        simp only [provisional, provisionalEvaluation, hclear, hrows]
        rfl
      · rw [show strict = _ from evaluate_of_evaluable sha256 hcampaign hnew]
        simp only [provisional, provisionalEvaluation, hrows]
        rfl
    have hscored : strict.evaluation.status ≠ .blocked := by
      rw [show strict.evaluation.status = _ from status_of_evaluable sha256 hcampaign hnew]
      split <;> simp
    rw [hprovisional.1, hprovisional.2, if_neg hscored]
    exact ⟨rfl, rfl⟩
  · obtain ⟨item, hitem, hclosed⟩ : ∃ item ∈ criterion.thresholds, ¬ (openRollup
        (applyCandidates floats (evaluateCoverageCampaign floats sha256 campaign (some criterion)
          waivers) usable).rollups item.metric).isSome = true := by
      simpa using mt hevaluable.mpr hnew
    have hblocked : provisional.status = .blocked := by
      have hsome : (criterion.ordered.filter fun item => (openRollup (applyCandidates floats
          (evaluateCoverageCampaign floats sha256 campaign (some criterion) waivers)
            usable).rollups item.metric).isNone) ≠ [] :=
        List.ne_nil_of_mem (List.mem_filter.mpr ⟨mem_ordered.mpr hitem, by simpa using hclosed⟩)
      simp only [provisional, provisionalEvaluation, List.isEmpty_map, List.isEmpty_iff, hsome,
        if_false]
    obtain ⟨diagnostics, heq⟩ := evaluate_of_not_evaluable sha256 hcampaign hnew
    rw [hblocked, if_pos rfl, show strict = _ from heq]
    exact ⟨rfl, rfl⟩

end Approved

/-! ## One screen for each candidate -/

section Verdict

variable {criterion : CoverageCriterion} {candidates : List ProvisionalCandidate}

theorem evaluateProvisional_of_fail (binding : CandidateBinding) (criterion : CoverageCriterion)
    (hlimit : candidates.length ≤ maxProvisionalCandidates)
    (hfail : campaign.evaluation.status = .fail) : ∃ verdict,
    evaluateProvisionalCoverage floats binding campaign criterion candidates = .ok verdict ∧
    verdict.evaluation = provisionalEvaluation floats campaign criterion
      (usableCandidates binding campaign candidates) ∧
    verdict.screens.Perm (candidates.filterMap (screenOne binding campaign) ++
      (usableCandidates binding campaign candidates).map fun entry =>
        offeredScreen (neededIds floats campaign criterion
          (usableCandidates binding campaign candidates) verdict.evaluation) entry.2) := by
  unfold evaluateProvisionalCoverage
  rw [if_neg (Nat.not_lt.mpr hlimit)]
  simp only [hfail, if_true]
  exact ⟨_, rfl, rfl, List.perm_insertionSort _ _⟩

/-- The candidates that a verdict offers. -/
def ProvisionalVerdict.offered (verdict : ProvisionalVerdict)
    (candidates : List ProvisionalCandidate) : List ProvisionalCandidate :=
  candidates.filter fun candidate => verdict.offeredIds.contains candidate.candidateId

theorem mem_offered (hids : (candidates.map (·.candidateId)).Nodup) {needed : List String}
    {verdict : ProvisionalVerdict}
    (hscreens : verdict.screens.Perm (candidates.filterMap (screenOne binding campaign) ++
      (usableCandidates binding campaign candidates).map fun entry =>
        offeredScreen needed entry.2)) {candidate : ProvisionalCandidate} :
    candidate ∈ verdict.offered candidates ↔
      ∃ entry ∈ usableCandidates binding campaign candidates, entry.2 = candidate := by
  have hoffered : candidate.candidateId ∈ verdict.offeredIds ↔
      ∃ entry ∈ usableCandidates binding campaign candidates,
        entry.2.candidateId = candidate.candidateId := by
    unfold ProvisionalVerdict.offeredIds
    rw [List.mem_map]
    constructor
    · rintro ⟨screen, hscreen, hid⟩
      obtain ⟨hscreen, hstatus⟩ := List.mem_filter.mp hscreen
      rcases List.mem_append.mp (hscreens.mem_iff.mp hscreen) with hrejected | hentry
      · obtain ⟨rejected, -, hreject⟩ := List.mem_filterMap.mp hrejected
        exact absurd (eq_of_beq hstatus) (screenOne_rejects hreject).2.1
      · obtain ⟨entry, hmem, rfl⟩ := List.mem_map.mp hentry
        exact ⟨entry, hmem, hid⟩
    · rintro ⟨entry, hmem, hid⟩
      refine ⟨offeredScreen needed entry.2, List.mem_filter.mpr ⟨?_, rfl⟩, hid⟩
      exact hscreens.mem_iff.mpr (List.mem_append_right _ (List.mem_map.mpr ⟨entry, hmem, rfl⟩))
  unfold ProvisionalVerdict.offered
  rw [List.mem_filter, List.contains_iff_mem, hoffered]
  constructor
  · rintro ⟨hmem, entry, hentry, hid⟩
    exact ⟨entry, hentry, eq_of_key hids (mem_usable hentry).1 hmem hid⟩
  · rintro ⟨entry, hentry, rfl⟩
    exact ⟨(mem_usable hentry).1, entry, hentry, rfl⟩

/-- The usable candidates, where no two of them name one point. -/
theorem usable_eq (hpoints : ((candidates.filter fun candidate =>
      (screenOne binding campaign candidate).isNone).map (·.pointId)).Nodup) :
    usableCandidates binding campaign candidates =
      (candidates.filter fun candidate => (screenOne binding campaign candidate).isNone).map
        fun candidate => (candidate.pointId, candidate) := by
  have hfilled := foldl_setItem hpoints [] fun _ _ _ hnil => absurd hnil List.not_mem_nil
  exact hfilled

theorem screens_ids {needed : List String} {verdict : ProvisionalVerdict}
    (hscreens : verdict.screens.Perm (candidates.filterMap (screenOne binding campaign) ++
      (usableCandidates binding campaign candidates).map fun entry =>
        offeredScreen needed entry.2))
    (hpoints : ((candidates.filter fun candidate =>
      (screenOne binding campaign candidate).isNone).map (·.pointId)).Nodup) :
    (verdict.screens.map (·.candidateId)).Perm (candidates.map (·.candidateId)) := by
  have hrejected : (candidates.filterMap (screenOne binding campaign)).map (·.candidateId) =
      (candidates.filter fun candidate => !(screenOne binding campaign candidate).isNone).map
        (·.candidateId) := by
    clear hscreens hpoints
    induction candidates with
    | nil => rfl
    | cons candidate rest ih =>
      cases hscreen : screenOne binding campaign candidate with
      | none => simp [hscreen, ih]
      | some screen => simp [hscreen, ih, (screenOne_rejects hscreen).1]
  have hmapped := hscreens.map (·.candidateId)
  rw [List.map_append, hrejected, usable_eq hpoints, List.map_map, List.map_map] at hmapped
  refine hmapped.trans (List.perm_append_comm.trans ?_)
  have hsplit := (List.filter_append_perm (fun candidate =>
    (screenOne binding campaign candidate).isNone) candidates).map (·.candidateId)
  rw [List.map_append] at hsplit
  exact hsplit

theorem any_passingMetrics (evaluation : CoverageEvaluation) (p : String → Bool) :
    (passingMetrics evaluation).any p = true ↔
      ∃ metric, metricVerdict evaluation metric = some .pass ∧ p metric = true := by
  rw [List.any_eq_true]
  constructor
  · rintro ⟨metric, hmem, hp⟩
    exact ⟨metric, eq_of_beq (List.mem_filter.mp hmem).2, hp⟩
  · rintro ⟨metric, hverdict, hp⟩
    refine ⟨metric, List.mem_filter.mpr ⟨?_, beq_iff_eq.mpr hverdict⟩, hp⟩
    obtain ⟨row, hrow, -⟩ := Option.map_eq_some_iff.mp hverdict
    obtain ⟨hmem, hmetric⟩ := List.mem_filter.mp (List.mem_of_getLast? hrow)
    exact List.mem_map.mpr ⟨row, hmem, eq_of_beq hmetric⟩

/-- Leaving out one candidate takes its entry out of the usable ones. -/
theorem usable_removeKey (hids : (candidates.map (·.candidateId)).Nodup)
    (hpoints : ((candidates.filter fun candidate =>
      (screenOne binding campaign candidate).isNone).map (·.pointId)).Nodup)
    {candidate : ProvisionalCandidate} (hmem : candidate ∈ candidates) :
    usableCandidates binding campaign (removeKey (·.candidateId) candidate.candidateId candidates) =
      if (screenOne binding campaign candidate).isNone then
        (usableCandidates binding campaign candidates).filter (·.1 != candidate.pointId)
      else usableCandidates binding campaign candidates := by
  have hcomm : (removeKey (·.candidateId) candidate.candidateId candidates).filter
        (fun other => (screenOne binding campaign other).isNone) =
      (candidates.filter fun other => (screenOne binding campaign other).isNone).filter
        (·.candidateId != candidate.candidateId) := by
    unfold removeKey
    rw [List.filter_filter, List.filter_filter]
    exact List.filter_congr fun other _ => Bool.and_comm _ _
  have hrest : ((removeKey (·.candidateId) candidate.candidateId candidates).filter
      fun other => (screenOne binding campaign other).isNone).map (·.pointId) |>.Nodup := by
    rw [hcomm]
    exact hpoints.sublist (List.filter_sublist.map _)
  rw [usable_eq hrest, usable_eq hpoints, hcomm]
  by_cases husable : (screenOne binding campaign candidate).isNone = true
  · rw [if_pos husable, List.filter_map]
    congr 1
    refine List.filter_congr fun other hother => ?_
    obtain ⟨hother, hscreen⟩ := List.mem_filter.mp hother
    have hiff : other.candidateId = candidate.candidateId ↔ other.pointId = candidate.pointId := by
      constructor
      · intro hid
        rw [eq_of_key hids hother hmem hid]
      · intro hpoint
        rw [eq_of_key hpoints (List.mem_filter.mpr ⟨hother, hscreen⟩)
          (List.mem_filter.mpr ⟨hmem, husable⟩) hpoint]
    by_cases hid : other.candidateId = candidate.candidateId
    · simp [hid, hiff.mp hid]
    · exact (bne_iff_ne.mpr hid).trans (bne_iff_ne.mpr (mt hiff.mpr hid)).symm
  · rw [if_neg husable]
    congr 1
    refine List.filter_eq_self.mpr fun other hother => ?_
    obtain ⟨hother, hscreen⟩ := List.mem_filter.mp hother
    rw [bne_iff_ne]
    intro hid
    rw [eq_of_key hids hother hmem hid] at hscreen
    exact husable hscreen

/-- A screen is labelled needed exactly when leaving out its candidate makes some metric that
passes no longer pass. -/
theorem needed_iff (hids : (candidates.map (·.candidateId)).Nodup)
    (hpoints : ((candidates.filter fun candidate =>
      (screenOne binding campaign candidate).isNone).map (·.pointId)).Nodup)
    {verdict : ProvisionalVerdict}
    (hevaluation : verdict.evaluation = provisionalEvaluation floats campaign criterion
      (usableCandidates binding campaign candidates))
    (hscreens : verdict.screens.Perm (candidates.filterMap (screenOne binding campaign) ++
      (usableCandidates binding campaign candidates).map fun entry =>
        offeredScreen (neededIds floats campaign criterion
          (usableCandidates binding campaign candidates) verdict.evaluation) entry.2))
    {candidate : ProvisionalCandidate} (hmem : candidate ∈ candidates) {screen : CandidateScreen}
    (hscreen : screen ∈ verdict.screens) (hid : screen.candidateId = candidate.candidateId) :
    screen.needed = true ↔ ∃ metric, metricVerdict verdict.evaluation metric = some .pass ∧
      metricVerdict (provisionalEvaluation floats campaign criterion (usableCandidates binding
        campaign (removeKey (·.candidateId) candidate.candidateId candidates))) metric ≠
          some .pass := by
  rw [usable_removeKey hids hpoints hmem]
  rcases List.mem_append.mp (hscreens.mem_iff.mp hscreen) with hrejected | hentry
  · obtain ⟨rejected, hrejectedMem, hreject⟩ := List.mem_filterMap.mp hrejected
    obtain ⟨hrejectedId, -, hneeded⟩ := screenOne_rejects hreject
    rw [eq_of_key hids hrejectedMem hmem (hrejectedId.symm.trans hid)] at hreject
    rw [hneeded, hreject, hevaluation]
    simp
  · obtain ⟨entry, husableEntry, rfl⟩ := List.mem_map.mp hentry
    obtain ⟨hentryMem, husable, hkey⟩ := mem_usable husableEntry
    have hsame : entry.2 = candidate := eq_of_key hids hentryMem hmem hid
    rw [← hsame, husable, Option.isNone_none, if_pos rfl, ← hkey]
    show (List.contains _ _) = true ↔ _
    rw [List.contains_iff_mem, neededIds, List.mem_map]
    constructor
    · rintro ⟨other, hother, hotherId⟩
      obtain ⟨hother, hany⟩ := List.mem_filter.mp hother
      obtain ⟨hotherMem, -, hotherKey⟩ := mem_usable hother
      have hequal : other.2 = entry.2 := eq_of_key hids hotherMem hentryMem hotherId
      rw [hotherKey, hequal, ← hkey] at hany
      obtain ⟨metric, hpass, hfails⟩ := (any_passingMetrics _ _).mp hany
      exact ⟨metric, hpass, bne_iff_ne.mp hfails⟩
    · rintro ⟨metric, hpass, hfails⟩
      refine ⟨entry, List.mem_filter.mpr ⟨husableEntry, ?_⟩, rfl⟩
      exact (any_passingMetrics _ _).mpr ⟨metric, hpass, bne_iff_ne.mpr hfails⟩

end Verdict

/-! ## Approving what is offered -/

/-- An approval of a candidate: the same Target, point and source. -/
def ProvisionalCandidate.ApprovedBy (candidate : ProvisionalCandidate)
    (waiver : ApprovedWaiver) : Prop :=
  waiver.target = candidate.targetIdentity ∧ waiver.pointId = candidate.pointId ∧
    waiver.source = candidate.source

section Approval

variable {criterion : CoverageCriterion} {sha256 : CriterionPayload → String}
  {waivers approved : ApprovedWaiverSet} {candidates : List ProvisionalCandidate}
  (hcampaign : Coherent floats campaign)
  (h : Evaluable campaign waivers.waivers criterion)
include hcampaign h

theorem points_evaluated (id : String) :
    (evaluateCoverageCampaign floats sha256 campaign (some criterion)
        waivers).points.filter (·.id == id) =
      (campaign.points.filter (·.id == id)).map
        (waivePoint campaign (waivers.waivers.filter (·.target == campaign.target))) := by
  rw [evaluated_points, waivedCampaign_eq hcampaign h]
  show (campaign.points.map _).filter _ = _
  rw [List.filter_map]
  congr 1
  refine List.filter_congr fun point _ => ?_
  rw [Function.comp_apply, (waivePoint_kept _ point).1]

/-- The collected point that a usable candidate names is not yet approved. -/
theorem usable_collected {candidate : ProvisionalCandidate}
    (husable : screenOne binding (evaluateCoverageCampaign floats sha256 campaign
      (some criterion) waivers) candidate = none) :
    candidate.targetIdentity = campaign.target ∧
      ∃ point, campaign.points.filter (·.id == candidate.pointId) = [point] ∧
        point.identity.source = some candidate.source ∧
        scored campaign waivers.waivers point = true := by
  obtain ⟨htarget, point, hone, hsource, heligible⟩ := usable_point husable
  rw [evaluated_target] at htarget
  rw [points_evaluated hcampaign h] at hone
  obtain ⟨collected, hcollected, rfl⟩ : ∃ collected,
      campaign.points.filter (·.id == candidate.pointId) = [collected] ∧
        waivePoint campaign (waivers.waivers.filter (·.target == campaign.target)) collected =
          point := by
    simpa [List.map_eq_singleton_iff] using hone
  rw [waivePoint_identity] at hsource
  rw [waivePoint_eligible, scored_filter] at heligible
  exact ⟨htarget, collected, hcollected, hsource, heligible⟩

/-- Approving every offered candidate. -/
theorem approving_offered (hids : (candidates.map (·.candidateId)).Nodup) {needed : List String}
    {verdict : ProvisionalVerdict}
    (hscreens : verdict.screens.Perm (candidates.filterMap (screenOne binding
        (evaluateCoverageCampaign floats sha256 campaign (some criterion) waivers)) ++
      (usableCandidates binding (evaluateCoverageCampaign floats sha256 campaign (some criterion)
        waivers) candidates).map fun entry => offeredScreen needed entry.2))
    {approve : ProvisionalCandidate → ApprovedWaiver}
    (happrove : ∀ candidate ∈ candidates, candidate.ApprovedBy (approve candidate))
    (hadded : approved.waivers.Perm
      (waivers.waivers ++ (verdict.offered candidates).map approve)) :
    Approving campaign waivers.waivers approved.waivers
      (usableCandidates binding (evaluateCoverageCampaign floats sha256 campaign (some criterion)
        waivers) candidates) := by
  have husable : ∀ candidate ∈ verdict.offered candidates,
      candidate ∈ candidates ∧ screenOne binding (evaluateCoverageCampaign floats sha256 campaign
        (some criterion) waivers) candidate = none := by
    intro candidate hoffered
    obtain ⟨entry, hentry, rfl⟩ := (mem_offered hids hscreens).mp hoffered
    exact ⟨(mem_usable hentry).1, (mem_usable hentry).2.1⟩
  have hnew : ∀ point, named campaign ((verdict.offered candidates).map approve) point =
      ((usableCandidates binding (evaluateCoverageCampaign floats sha256 campaign (some criterion)
        waivers) candidates).lookup point.id).isSome := by
    intro point
    rw [Bool.eq_iff_iff, List.lookup_isSome_iff, named, List.any_map, List.any_eq_true]
    constructor
    · rintro ⟨candidate, hoffered, hnames⟩
      obtain ⟨entry, hentry, rfl⟩ := (mem_offered hids hscreens).mp hoffered
      obtain ⟨hmem, -, hkey⟩ := mem_usable hentry
      have hpoint := (Bool.and_eq_true_iff.mp hnames).2
      refine ⟨entry, hentry, ?_⟩
      rw [hkey, ← (happrove entry.2 hmem).2.1]
      exact BEq.symm hpoint
    · rintro ⟨entry, hentry, hid⟩
      obtain ⟨hmem, hscreen, hkey⟩ := mem_usable hentry
      have happroved := happrove entry.2 hmem
      refine ⟨entry.2, (mem_offered hids hscreens).mpr ⟨entry, hentry, rfl⟩, ?_⟩
      have htarget := (usable_collected hcampaign h hscreen).1
      simp [happroved.1, htarget, happroved.2.1, ← hkey, eq_of_beq hid]
  constructor
  · intro point
    rw [← hnew, named, hadded.any_eq, List.any_append]
    rfl
  · intro waiver hwaiver htarget
    rcases List.mem_append.mp (hadded.mem_iff.mp hwaiver) with hold | hmapped
    · exact h.waived waiver hold htarget
    · obtain ⟨candidate, hoffered, rfl⟩ := List.mem_map.mp hmapped
      obtain ⟨hmem, hscreen⟩ := husable candidate hoffered
      obtain ⟨-, hpoint, hsource⟩ := happrove candidate hmem
      obtain ⟨-, point, hone, hpointSource, hscored⟩ := usable_collected hcampaign h hscreen
      refine ⟨point, ?_, ?_, (Bool.and_eq_true_iff.mp hscored).1⟩
      · rw [hpoint]
        exact hone
      · rw [hsource]
        exact hpointSource
  · intro point hpoint hlookup
    obtain ⟨entry, hentry, hid⟩ := List.lookup_isSome_iff.mp hlookup
    obtain ⟨-, hscreen, hkey⟩ := mem_usable hentry
    obtain ⟨-, collected, hone, -, hscored⟩ := usable_collected hcampaign h hscreen
    have hmem : point ∈ campaign.points.filter (·.id == entry.2.pointId) := by
      refine List.mem_filter.mpr ⟨hpoint, ?_⟩
      rw [← hkey]
      exact hid
    rw [hone, List.mem_singleton] at hmem
    rw [hmem]
    exact hscored

end Approval

/-- With every offered candidate approved, the strict evaluation has the provisional status and,
unless that is blocked, the provisional rows. Where no two usable candidates name one point, every
candidate has its screen, and it is labelled needed exactly when leaving it out makes some metric
that passes no longer pass. -/
theorem provisional_verdict_exact (floats : Floats) (sha256 : CriterionPayload → String)
    {campaign : CoverageCampaign} (hcampaign : Coherent floats campaign)
    (hunwaived : Unwaived campaign) {criterion : CoverageCriterion}
    (hwritten : criterion.Written floats) (waivers : ApprovedWaiverSet)
    (hfailed : (evaluateCoverageCampaign floats sha256 campaign (some criterion)
      waivers).evaluation.status = .fail)
    (binding : CandidateBinding) {candidates : List ProvisionalCandidate}
    (hlimit : candidates.length ≤ maxProvisionalCandidates)
    (hids : (candidates.map (·.candidateId)).Nodup) :
    let document := evaluateCoverageCampaign floats sha256 campaign (some criterion) waivers
    ∃ verdict, evaluateProvisionalCoverage floats binding document criterion candidates =
        .ok verdict ∧
      (∀ (approve : ProvisionalCandidate → ApprovedWaiver) (approved : ApprovedWaiverSet),
        (∀ candidate ∈ candidates, candidate.ApprovedBy (approve candidate)) →
        approved.waivers.Perm (waivers.waivers ++ (verdict.offered candidates).map approve) →
        ∃ strict, strictReevaluation floats sha256 document approved none = .ok strict ∧
          strict.evaluation.status = verdict.evaluation.status ∧
          strict.evaluation.metrics =
            if verdict.evaluation.status = .blocked then [] else verdict.evaluation.metrics) ∧
      (((candidates.filter fun candidate =>
          (screenOne binding document candidate).isNone).map (·.pointId)).Nodup →
        (verdict.screens.map (·.candidateId)).Perm (candidates.map (·.candidateId)) ∧
        ∀ candidate ∈ candidates, ∀ screen ∈ verdict.screens,
          screen.candidateId = candidate.candidateId →
          (screen.needed = true ↔ ∃ without,
            evaluateProvisionalCoverage floats binding document criterion
              (removeKey (·.candidateId) candidate.candidateId candidates) = .ok without ∧
            ∃ metric, metricVerdict verdict.evaluation metric = some .pass ∧
              metricVerdict without.evaluation metric ≠ some .pass)) := by
  intro document
  obtain ⟨verdict, hverdict, hevaluation, hscreens⟩ :=
    evaluateProvisional_of_fail binding criterion hlimit hfailed
  have h : Evaluable campaign waivers.waivers criterion :=
    ((status_fail_iff sha256 hcampaign).mp hfailed).1
  refine ⟨verdict, hverdict, ?_, fun hpoints => ⟨screens_ids hscreens hpoints, ?_⟩⟩
  · intro approve approved happrove hadded
    refine ⟨_, strictReevaluation_evaluated hunwaived hwritten approved (.inr hfailed), ?_⟩
    rw [hevaluation]
    exact provisional_approved hcampaign hunwaived h
      (approving_offered hcampaign h hids hscreens happrove hadded)
  · intro candidate hmem screen hscreen hid
    have hshorter : (removeKey (·.candidateId) candidate.candidateId candidates).length ≤
        maxProvisionalCandidates := (List.length_filter_le _ _).trans hlimit
    obtain ⟨without, hwithout, heq, -⟩ :=
      evaluateProvisional_of_fail binding criterion hshorter hfailed
    rw [needed_iff hids hpoints hevaluation hscreens hmem hscreen hid, ← heq]
    constructor
    · rintro ⟨metric, hmetric⟩
      exact ⟨without, hwithout, metric, hmetric⟩
    · rintro ⟨other, hother, metric, hmetric⟩
      rw [hwithout] at hother
      cases hother
      exact ⟨metric, hmetric⟩

/-! ## A line and a toggle -/

def counterBinding : CandidateBinding := ⟨"campaign-1", [("rtl/counter.sv", "sha256:rtl")], none⟩

def counterCandidate (pointId : String) : ProvisionalCandidate :=
  ⟨"wc-" ++ pointId, "campaign-1", "acme:demo:counter:1.0#sim", pointId, "rtl/counter.sv",
    "sha256:rtl", "unreachable"⟩

def counterApproval (candidate : ProvisionalCandidate) : ApprovedWaiver :=
  ⟨candidate.targetIdentity, candidate.pointId, "unreachable", candidate.candidateId,
    "waivers/counter.toml", "sha256:waiver", [], candidate.source⟩

theorem provisional_verdict_line :
    ∃ verdict, evaluateProvisionalCoverage decimals counterBinding
        (lineEvaluated (lineCriterion [50] none)) (lineCriterion [50] none)
          [counterCandidate "point-1"] = .ok verdict ∧
      ∃ strict, strictReevaluation decimals (fun _ => "sha256:0")
        (lineEvaluated (lineCriterion [50] none))
          ⟨[], "sha256:one", (verdict.offered [counterCandidate "point-1"]).map counterApproval⟩
            none = .ok strict ∧ strict.evaluation.status = verdict.evaluation.status := by
  have hwritten : (lineCriterion [50] none).Written decimals := lineCriterion_written rfl
  have hlimit : [counterCandidate "point-1"].length ≤ maxProvisionalCandidates := by decide
  obtain ⟨verdict, hverdict, hstrict, -⟩ := provisional_verdict_exact decimals
    (fun _ => "sha256:0") lineCampaign_coherent lineCampaign_unwaived hwritten
    ⟨[], "sha256:empty", []⟩ (by decide +kernel) counterBinding hlimit (by decide)
  obtain ⟨strict, hok, hstatus, -⟩ := hstrict counterApproval
    ⟨[], "sha256:one", (verdict.offered [counterCandidate "point-1"]).map counterApproval⟩
    (fun _ _ => ⟨rfl, rfl, rfl⟩) (List.Perm.refl _)
  exact ⟨verdict, hverdict, strict, hok, hstatus⟩

def counterPoints : List CoveragePoint :=
  linePoints ++ [⟨"point-3", ⟨"toggle", some "rtl/counter.sv"⟩, [], .eligible⟩]

def counterCampaign : CoverageCampaign :=
  { lineCampaign with
    capabilities := lineCampaign.capabilities ++
      [⟨"toggle", .reported, some "supported", some "scored_v1"⟩]
    points := counterPoints
    rollups := calculateRollups decimals counterPoints }

def counterCriterion : CoverageCriterion :=
  ⟨"acme:demo:counter:1.0#sim", [⟨.line, 25⟩, ⟨.toggle, 50⟩], none⟩

def counterEvaluated : CoverageCampaign :=
  evaluateCoverageCampaign decimals (fun _ => "sha256:0") counterCampaign (some counterCriterion)
    ⟨[], "sha256:empty", []⟩

/-- The one toggle point is offered, and without it nothing can be scored: the provisional
evaluation still has the row of the lines, the strict one has none. Of 513 candidates none is
screened. -/
theorem provisional_verdict_differs :
    counterEvaluated.evaluation.status = .fail ∧
    (evaluateProvisionalCoverage decimals counterBinding counterEvaluated counterCriterion
        [counterCandidate "point-3"]).toOption.map
          (fun verdict => (verdict.offeredIds, verdict.evaluation.metrics.length)) =
      some (["wc-point-3"], 1) ∧
    (strictReevaluation decimals (fun _ => "sha256:0") counterEvaluated
        ⟨[], "sha256:one", [counterApproval (counterCandidate "point-3")]⟩ none).toOption.map
          (·.evaluation.metrics.length) = some 0 ∧
    (evaluateProvisionalCoverage decimals counterBinding counterEvaluated counterCriterion
        (List.replicate 513 (counterCandidate "point-3"))).toOption.isNone = true := by
  refine ⟨?_, ?_, ?_, ?_⟩ <;> decide +kernel

end Booley.Coverage
