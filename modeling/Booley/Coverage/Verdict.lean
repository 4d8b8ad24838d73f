import Booley.Coverage.Rollups
import Mathlib.Algebra.Order.Field.Basic
import Mathlib.Algebra.Order.Ring.Rat

/-!
# The coverage verdict

The policy evaluation passes exactly when every threshold holds of the scored points, and is
blocked by exactly what keeps the evidence from being scored.
-/
namespace Booley.Coverage

open Booley.Lib Booley.Lib.Json Booley.Goals

variable {floats : Floats} {campaign : CoverageCampaign}

/-! ## What blocks -/

theorem eq_of_matchOne {waiver found : ApprovedWaiver}
    (h : matchOne waiver campaign = .ok found) : found = waiver := by
  unfold matchOne at h
  split at h
  · cases h
  · split at h
    · cases h
    · split at h
      · cases h
      · cases h
        rfl
  · cases h

theorem matchOne_eq_ok {waiver : ApprovedWaiver} :
    matchOne waiver campaign = .ok waiver ↔ waiver.Matches campaign := by
  unfold matchOne ApprovedWaiver.Matches
  split
  next hnone => simp [hnone]
  next point hone =>
    by_cases hsource : point.identity.source = some waiver.source
    · cases hkind : point.disposition.isEligible <;> simp [hone, hsource, hkind]
    · simp [hone, hsource]
  next hnone hone =>
    constructor
    · intro h
      cases h
    · rintro ⟨point, heq, -⟩
      exact absurd heq (hone point)

theorem finding?_matchOne {waiver : ApprovedWaiver} :
    finding? (matchOne waiver campaign) = none ↔ waiver.Matches campaign := by
  rw [← matchOne_eq_ok]
  cases hmatch : matchOne waiver campaign with
  | error finding => simp [finding?]
  | ok found =>
    rw [eq_of_matchOne hmatch]
    simp [finding?]

/-- With the normalization complete, either no waiver of the Target failed to match, and all of
them are returned, or there are findings. -/
theorem matchCampaign_spec (waivers : List ApprovedWaiver)
    (hnormal : campaign.normalization = .complete ∨
      campaign.normalization = .completeWithUnknownRecords) :
    ((matchCampaign waivers campaign).findings = [] ↔
      ∀ waiver ∈ waivers, waiver.target = campaign.target → waiver.Matches campaign) ∧
    ((matchCampaign waivers campaign).findings = [] →
      (matchCampaign waivers campaign).waivers =
        waivers.filter (·.target == campaign.target)) := by
  have hfindings : (((waivers.filter (·.target == campaign.target)).map fun waiver =>
        matchOne waiver campaign).filterMap finding?) = [] ↔
      ∀ waiver ∈ waivers, waiver.target = campaign.target → waiver.Matches campaign := by
    simp [List.filterMap_eq_nil_iff, finding?_matchOne]
  unfold matchCampaign
  rw [if_pos hnormal]
  by_cases hempty : (((waivers.filter (·.target == campaign.target)).map fun waiver =>
      matchOne waiver campaign).filterMap finding?) = []
  · have hall := hfindings.mp hempty
    have hresolved : ((waivers.filter (·.target == campaign.target)).map fun waiver =>
        matchOne waiver campaign).filterMap Except.toOption =
        waivers.filter (·.target == campaign.target) := by
      rw [List.filterMap_map]
      refine (List.filterMap_congr fun waiver hmem => ?_).trans (List.filterMap_some ..)
      obtain ⟨hwaiver, htarget⟩ := List.mem_filter.mp hmem
      rw [Function.comp_apply, matchOne_eq_ok.mpr (hall waiver hwaiver (by simpa using htarget))]
      rfl
    simp [hempty, hresolved, ← hfindings]
  · have hsome : (((waivers.filter (·.target == campaign.target)).map fun waiver =>
        matchOne waiver campaign).filterMap finding?).isEmpty = false := by
      rw [Bool.eq_false_iff, ne_eq, List.isEmpty_iff]
      exact hempty
    simp only [hsome, Bool.false_eq_true, if_false, hempty, false_iff, false_imp_iff, and_true]
    exact fun hall => hempty (hfindings.mpr hall)

theorem scoredPoints_filter (waivers : List ApprovedWaiver) (metric : CoverageMetric) :
    scoredPoints campaign (waivers.filter (·.target == campaign.target)) metric =
      scoredPoints campaign waivers metric := by
  unfold scoredPoints scored
  refine List.filter_congr fun point _ => ?_
  rw [List.any_filter]
  simp [← Bool.and_assoc]

theorem metricAvailable_iff (metric : CoverageMetric) : metricAvailable campaign metric = true ↔
    ∃ capability ∈ campaign.capabilities, capability.recordClass = metricText metric ∧
      capability.status = .reported ∧ capability.collection = some "supported" ∧
      capability.scoring = some "scored_v1" := by
  simp [metricAvailable, and_assoc]

theorem sortedTests_eq_iff (a b : List String) : sortedTests a = sortedTests b ↔ a.Perm b := by
  have htotal : Std.Total (α := String) (· ≤ ·) := ⟨fun x y => String.le_total x y⟩
  have htrans : IsTrans String (· ≤ ·) := ⟨fun _ _ _ => String.le_trans⟩
  unfold sortedTests
  constructor
  · intro h
    exact (List.perm_insertionSort _ a).symm.trans (h ▸ List.perm_insertionSort _ b)
  · intro h
    refine List.Perm.eq_of_pairwise (fun x y _ _ => String.le_antisymm)
      (List.pairwise_insertionSort _ a) (List.pairwise_insertionSort _ b) ?_
    exact (List.perm_insertionSort _ a).trans (h.trans (List.perm_insertionSort _ b).symm)

theorem sortedMetrics_eq_nil (metrics : List CoverageMetric) :
    sortedMetrics metrics = [] ↔ metrics = [] := by
  have hperm := List.perm_insertionSort (fun a b => metricOrder a ≤ metricOrder b) metrics
  unfold sortedMetrics
  constructor
  · intro h
    rw [h] at hperm
    exact hperm.symm.eq_nil
  · intro h
    rw [h]
    rfl

theorem targetSuiteDiagnostics_eq_nil (criterion : CoverageCriterion)
    (requiredTests : List String) :
    targetSuiteDiagnostics campaign criterion requiredTests = [] ↔
      criterion.target = campaign.target ∧ requiredTests.Perm campaign.selectedTests := by
  rw [← sortedTests_eq_iff]
  by_cases htarget : criterion.target = campaign.target <;>
    by_cases hsuite : sortedTests requiredTests = sortedTests campaign.selectedTests <;>
      simp [targetSuiteDiagnostics, htarget, hsuite]

theorem unavailable_eq_nil (criterion : CoverageCriterion) :
    sortedMetrics ((criterion.thresholds.map (·.metric)).filter fun metric =>
        !metricAvailable campaign metric) = [] ↔
      ∀ item ∈ criterion.thresholds, metricAvailable campaign item.metric = true := by
  simp [sortedMetrics_eq_nil, List.filter_eq_nil_iff]

theorem evidenceDiagnostics_eq_nil (criterion : CoverageCriterion) (requiredTests : List String) :
    evidenceDiagnostics campaign criterion requiredTests = [] ↔
      (criterion.target = campaign.target ∧ requiredTests.Perm campaign.selectedTests) ∧
      campaign.collection = .complete ∧ campaign.normalization ≠ .incompatible ∧
      ∀ item ∈ criterion.thresholds, metricAvailable campaign item.metric = true := by
  unfold evidenceDiagnostics
  rw [List.append_eq_nil_iff, List.append_eq_nil_iff, List.append_eq_nil_iff,
    targetSuiteDiagnostics_eq_nil, List.map_eq_nil_iff, unavailable_eq_nil]
  by_cases hcollected : campaign.collection = .complete <;>
    by_cases hnormal : campaign.normalization = .incompatible <;>
      simp [hcollected, hnormal]

theorem emptyDenominatorDiagnostics_eq_nil (criterion : CoverageCriterion) :
    emptyDenominatorDiagnostics campaign criterion = [] ↔
      ∀ item ∈ criterion.thresholds, ∃ rollup,
        rollupFor campaign.rollups item.metric = some rollup ∧ rollup.eligiblePoints ≠ 0 := by
  unfold emptyDenominatorDiagnostics
  rw [List.map_eq_nil_iff, sortedMetrics_eq_nil, List.filter_eq_nil_iff]
  simp only [List.forall_mem_map]
  refine forall₂_congr fun item _ => ?_
  cases rollupFor campaign.rollups item.metric <;> simp

/-- Once matched, the waivers leave a denominator to the metrics that have a scored point. -/
theorem denominator_iff (hcampaign : Coherent floats campaign)
    (hcollected : campaign.collection = .complete) (waivers : List ApprovedWaiver)
    (metric : CoverageMetric) :
    (∃ rollup, rollupFor (applyWaivers floats campaign waivers).rollups metric = some rollup ∧
      rollup.eligiblePoints ≠ 0) ↔ scoredPoints campaign waivers metric ≠ [] := by
  rw [ne_eq, ← List.length_eq_zero_iff]
  cases hrollup : rollupFor (applyWaivers floats campaign waivers).rollups metric with
  | none => simp [scoredPoints_of_no_rollup hcampaign hcollected waivers metric hrollup]
  | some rollup =>
    simp [(counts_of_rollup hcampaign hcollected waivers metric hrollup).1]

theorem diagnosticsOf_eq_nil (hcampaign : Coherent floats campaign)
    (criterion : CoverageCriterion) (waivers : List ApprovedWaiver) :
    diagnosticsOf (matchCampaign waivers campaign).findings
        (applyWaivers floats campaign (matchCampaign waivers campaign).waivers) criterion = [] ↔
      Evaluable campaign waivers criterion := by
  unfold diagnosticsOf
  rw [List.append_eq_nil_iff, List.append_eq_nil_iff, evidenceDiagnostics_eq_nil]
  constructor
  · rintro ⟨⟨hfindings, ⟨htarget, hsuite⟩, hcollected, hnormal, havailable⟩, hempty⟩
    have hcollected : campaign.collection = .complete := hcollected
    obtain ⟨hmatched, hwaivers⟩ := matchCampaign_spec waivers (hcampaign.normalized hcollected)
    rw [if_pos ⟨hcollected, hnormal⟩, emptyDenominatorDiagnostics_eq_nil] at hempty
    exact
      { target := htarget
        suite := hsuite
        collected := hcollected
        normalized := hnormal
        available := fun item hitem => (metricAvailable_iff _).mp (havailable item hitem)
        denominators := by
          intro item hitem
          have hscored := (denominator_iff hcampaign hcollected _ _).mp (hempty item hitem)
          rwa [hwaivers hfindings, scoredPoints_filter] at hscored
        waived := hmatched.mp hfindings }
  · intro h
    obtain ⟨hmatched, hwaivers⟩ := matchCampaign_spec waivers (hcampaign.normalized h.collected)
    have hfindings := hmatched.mpr h.waived
    refine ⟨⟨hfindings, ⟨h.target, h.suite⟩, h.collected, h.normalized, fun item hitem =>
      (metricAvailable_iff _).mpr (h.available item hitem)⟩, ?_⟩
    rw [if_pos ⟨h.collected, h.normalized⟩, emptyDenominatorDiagnostics_eq_nil]
    intro item hitem
    rw [denominator_iff hcampaign h.collected, hwaivers hfindings, scoredPoints_filter]
    exact h.denominators item hitem

/-! ## The scored verdict -/

theorem mem_ordered {criterion : CoverageCriterion} {item : CoverageThreshold} :
    item ∈ criterion.ordered ↔ item ∈ criterion.thresholds :=
  List.mem_insertionSort _

/-- A row passes when the minimum holds of the scored points, in whole numbers. -/
theorem metricResult_pass_iff (hcampaign : Coherent floats campaign)
    (hcollected : campaign.collection = .complete) (waivers : List ApprovedWaiver)
    (item : CoverageThreshold) (hscored : scoredPoints campaign waivers item.metric ≠ [])
    {rollup : CoverageRollup}
    (hrollup : rollupFor (applyWaivers floats campaign waivers).rollups item.metric =
      some rollup) :
    (metricResult floats rollup item).verdict = .pass ↔ item.Met campaign waivers := by
  obtain ⟨heligible, hcovered⟩ := counts_of_rollup hcampaign hcollected waivers _ hrollup
  have hpositive : (0 : Rat) < (scoredPoints campaign waivers item.metric).length := by
    exact_mod_cast List.length_pos_iff.mpr hscored
  have hverdict : (metricResult floats rollup item).verdict = .pass ↔ item.minimumPercent ≤
      ((rollup.coveredPoints * 100 : Nat) : Rat) / rollup.eligiblePoints := by
    simp [metricResult]
  rw [hverdict, heligible, hcovered, le_div_iff₀ hpositive, CoverageThreshold.Met, mul_comm 100]
  push_cast
  rfl

/-- The Campaign with its matched waivers applied. -/
def waivedCampaign (floats : Floats) (campaign : CoverageCampaign)
    (waivers : ApprovedWaiverSet) : CoverageCampaign :=
  applyWaivers floats campaign (matchCampaign waivers.waivers campaign).waivers

section Kept

variable (sha256 : CriterionPayload → String) {criterion : Option CoverageCriterion}
  {waivers : ApprovedWaiverSet}

/-- Evaluating changes nothing of the Campaign but the waived points, their rollups and the
evaluation. -/
theorem evaluated_kept : ∃ evaluation,
    evaluateCoverageCampaign floats sha256 campaign criterion waivers =
      { waivedCampaign floats campaign waivers with evaluation := evaluation } := by
  cases criterion with
  | none => exact ⟨_, rfl⟩
  | some criterion =>
    simp only [evaluateCoverageCampaign]
    split
    · exact ⟨_, rfl⟩
    · exact ⟨_, rfl⟩

theorem evaluated_rollups :
    (evaluateCoverageCampaign floats sha256 campaign criterion waivers).rollups =
      (waivedCampaign floats campaign waivers).rollups := by
  obtain ⟨evaluation, heq⟩ := evaluated_kept sha256
  rw [heq]

theorem evaluated_points :
    (evaluateCoverageCampaign floats sha256 campaign criterion waivers).points =
      (waivedCampaign floats campaign waivers).points := by
  obtain ⟨evaluation, heq⟩ := evaluated_kept sha256
  rw [heq]

theorem evaluated_target :
    (evaluateCoverageCampaign floats sha256 campaign criterion waivers).target =
      campaign.target := by
  obtain ⟨evaluation, heq⟩ := evaluated_kept sha256
  rw [heq]
  rfl

theorem evaluated_collection :
    (evaluateCoverageCampaign floats sha256 campaign criterion waivers).collection =
      campaign.collection := by
  obtain ⟨evaluation, heq⟩ := evaluated_kept sha256
  rw [heq]
  rfl

end Kept

section Scored

variable {criterion : CoverageCriterion} {waivers : ApprovedWaiverSet}
  (hcampaign : Coherent floats campaign) (h : Evaluable campaign waivers.waivers criterion)
include hcampaign h

theorem waivedCampaign_eq : waivedCampaign floats campaign waivers =
    applyWaivers floats campaign (waivers.waivers.filter (·.target == campaign.target)) := by
  obtain ⟨hmatched, hwaivers⟩ :=
    matchCampaign_spec waivers.waivers (hcampaign.normalized h.collected)
  rw [waivedCampaign, hwaivers (hmatched.mpr h.waived)]

/-- Every threshold of an evaluable criterion has a rollup with a denominator. -/
theorem exists_rollup {item : CoverageThreshold} (hitem : item ∈ criterion.thresholds) :
    ∃ rollup, rollupFor (waivedCampaign floats campaign waivers).rollups item.metric =
      some rollup ∧ rollup.eligiblePoints ≠ 0 := by
  rw [waivedCampaign_eq hcampaign h, denominator_iff hcampaign h.collected, scoredPoints_filter]
  exact h.denominators item hitem

theorem metricResult_pass_iff_met {item : CoverageThreshold}
    (hitem : item ∈ criterion.thresholds) {rollup : CoverageRollup}
    (hrollup : rollupFor (waivedCampaign floats campaign waivers).rollups item.metric =
      some rollup) :
    (metricResult floats rollup item).verdict = .pass ↔ item.Met campaign waivers.waivers := by
  rw [waivedCampaign_eq hcampaign h] at hrollup
  have hscored : scoredPoints campaign (waivers.waivers.filter (·.target == campaign.target))
      item.metric ≠ [] := by
    rw [scoredPoints_filter]
    exact h.denominators item hitem
  rw [metricResult_pass_iff hcampaign h.collected _ item hscored hrollup,
    CoverageThreshold.Met, CoverageThreshold.Met, hitPoints, hitPoints, scoredPoints_filter]

theorem scoredRows_pass_iff :
    (scoredRows floats (waivedCampaign floats campaign waivers) criterion).all
        (·.verdict == .pass) = true ↔
      ∀ item ∈ criterion.thresholds, item.Met campaign waivers.waivers := by
  rw [List.all_eq_true]
  constructor
  · intro hrows item hitem
    obtain ⟨rollup, hrollup, -⟩ := exists_rollup hcampaign h hitem
    refine (metricResult_pass_iff_met hcampaign h hitem hrollup).mp ?_
    refine eq_of_beq (hrows _ (List.mem_filterMap.mpr ⟨item, mem_ordered.mpr hitem, ?_⟩))
    rw [hrollup]
    rfl
  · intro hmet row hrow
    obtain ⟨item, hitem, hresult⟩ := List.mem_filterMap.mp hrow
    have hitem := mem_ordered.mp hitem
    obtain ⟨rollup, hrollup, -⟩ := exists_rollup hcampaign h hitem
    rw [hrollup, Option.map_some] at hresult
    cases hresult
    exact beq_iff_eq.mpr
      ((metricResult_pass_iff_met hcampaign h hitem hrollup).mpr (hmet item hitem))

end Scored

section Status

variable (sha256 : CriterionPayload → String) {criterion : CoverageCriterion}
  {waivers : ApprovedWaiverSet} (hcampaign : Coherent floats campaign)
include hcampaign

theorem evaluate_of_evaluable (h : Evaluable campaign waivers.waivers criterion) :
    evaluateCoverageCampaign floats sha256 campaign (some criterion) waivers =
      scoredCampaign floats sha256 (waivedCampaign floats campaign waivers) criterion waivers
        (criterion.requiredTests campaign) := by
  have hnone := (diagnosticsOf_eq_nil hcampaign criterion waivers.waivers).mpr h
  show (if _ then _ else _) = _
  rw [if_pos (List.isEmpty_iff.mpr hnone)]
  rfl

theorem evaluate_of_not_evaluable (h : ¬ Evaluable campaign waivers.waivers criterion) :
    ∃ diagnostics, evaluateCoverageCampaign floats sha256 campaign (some criterion) waivers =
      blockedCampaign floats sha256 (waivedCampaign floats campaign waivers) criterion waivers
        (criterion.requiredTests campaign) diagnostics := by
  have hsome := mt (diagnosticsOf_eq_nil hcampaign criterion waivers.waivers).mp h
  refine ⟨diagnosticsOf (matchCampaign waivers.waivers campaign).findings
    (waivedCampaign floats campaign waivers) criterion, ?_⟩
  show (if _ then _ else _) = _
  rw [if_neg (fun hempty => hsome (List.isEmpty_iff.mp hempty))]
  rfl

theorem status_of_not_evaluable (h : ¬ Evaluable campaign waivers.waivers criterion) :
    (evaluateCoverageCampaign floats sha256 campaign (some criterion)
      waivers).evaluation.status = .blocked := by
  obtain ⟨diagnostics, heq⟩ := evaluate_of_not_evaluable sha256 hcampaign h
  rw [heq]
  rfl

theorem status_of_evaluable (h : Evaluable campaign waivers.waivers criterion) :
    (evaluateCoverageCampaign floats sha256 campaign (some criterion)
      waivers).evaluation.status =
      if (scoredRows floats (waivedCampaign floats campaign waivers) criterion).all
        (·.verdict == .pass) then .pass else .fail := by
  rw [evaluate_of_evaluable sha256 hcampaign h]
  rfl

theorem status_pass_iff :
    (evaluateCoverageCampaign floats sha256 campaign (some criterion)
      waivers).evaluation.status = .pass ↔
      Evaluable campaign waivers.waivers criterion ∧
        ∀ item ∈ criterion.thresholds, item.Met campaign waivers.waivers := by
  by_cases h : Evaluable campaign waivers.waivers criterion
  · rw [status_of_evaluable sha256 hcampaign h, ← scoredRows_pass_iff hcampaign h]
    simp [h]
  · simp [status_of_not_evaluable sha256 hcampaign h, h]

theorem status_fail_iff :
    (evaluateCoverageCampaign floats sha256 campaign (some criterion)
      waivers).evaluation.status = .fail ↔
      Evaluable campaign waivers.waivers criterion ∧
        ¬ ∀ item ∈ criterion.thresholds, item.Met campaign waivers.waivers := by
  by_cases h : Evaluable campaign waivers.waivers criterion
  · rw [status_of_evaluable sha256 hcampaign h, ← scoredRows_pass_iff hcampaign h]
    simp [h]
  · simp [status_of_not_evaluable sha256 hcampaign h, h]

theorem status_blocked_iff :
    (evaluateCoverageCampaign floats sha256 campaign (some criterion)
      waivers).evaluation.status = .blocked ↔
      ¬ Evaluable campaign waivers.waivers criterion := by
  by_cases h : Evaluable campaign waivers.waivers criterion
  · rw [status_of_evaluable sha256 hcampaign h]
    simp only [h, not_true_eq_false, iff_false]
    split <;> simp
  · simp [status_of_not_evaluable sha256 hcampaign h, h]

end Status

end Booley.Coverage
