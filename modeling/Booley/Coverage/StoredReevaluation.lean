import Booley.Coverage.CampaignStore

/-!
# Evaluating again what the store holds

The order of a point's runs is all that publishing and loading can change of a collected point, and
no evaluation reads it. So a loaded Campaign is evaluated again as the one that was published.
-/
namespace Booley.Coverage

open Booley.Lib Booley.Lib.Json Booley.Goals

variable {floats : Floats} {campaign : CoverageCampaign} {sha256 : CriterionPayload → String}

/-- A Campaign with the runs of each point in the order of their names. -/
def sortedRuns (campaign : CoverageCampaign) : CoverageCampaign :=
  { campaign with points := campaign.points.map sortHits }

theorem matchOne_sortedRuns (waiver : ApprovedWaiver) :
    matchOne waiver (sortedRuns campaign) = matchOne waiver campaign := by
  have hpoints : (sortedRuns campaign).points.filter (·.id == waiver.pointId) =
      (campaign.points.filter (·.id == waiver.pointId)).map sortHits := by
    rw [sortedRuns, List.filter_map]
    rfl
  unfold matchOne
  rw [hpoints]
  cases campaign.points.filter (·.id == waiver.pointId) with
  | nil => rfl
  | cons point rest => cases rest <;> rfl

theorem matchCampaign_sortedRuns (waivers : List ApprovedWaiver) :
    matchCampaign waivers (sortedRuns campaign) = matchCampaign waivers campaign := by
  have hmatch : (fun waiver => matchOne waiver (sortedRuns campaign)) =
      fun waiver => matchOne waiver campaign := funext fun waiver => matchOne_sortedRuns waiver
  unfold matchCampaign
  rw [hmatch]
  rfl

theorem applyWaivers_sortedRuns (waivers : List ApprovedWaiver) :
    applyWaivers floats (sortedRuns campaign) waivers =
      sortedRuns (applyWaivers floats campaign waivers) := by
  have hpoint : ∀ point, waivePoint (sortedRuns campaign) waivers (sortHits point) =
      sortHits (waivePoint campaign waivers point) := by
    intro point
    have hwaiver : waiverOf (sortedRuns campaign) waivers (sortHits point) =
        waiverOf campaign waivers point := rfl
    unfold waivePoint
    rw [hwaiver]
    obtain ⟨id, identity, hits, disposition⟩ := point
    cases waiverOf campaign waivers ⟨id, identity, hits, disposition⟩ <;>
      cases disposition <;> rfl
  have hpoints : (campaign.points.map sortHits).map (waivePoint (sortedRuns campaign) waivers) =
      (campaign.points.map (waivePoint campaign waivers)).map sortHits := by
    rw [List.map_map, List.map_map]
    exact List.map_congr_left fun point _ => hpoint point
  have hrollups : campaign.rollups.map
        (deriveRollup floats ((campaign.points.map (waivePoint campaign waivers)).map sortHits)) =
      campaign.rollups.map
        (deriveRollup floats (campaign.points.map (waivePoint campaign waivers))) :=
    List.map_congr_left fun rollup _ =>
      deriveRollup_alike (forall₂_map countedAlike_sortHits _) rollup
  have happlied : applyWaivers floats (sortedRuns campaign) waivers =
      { campaign with
        points := (campaign.points.map sortHits).map (waivePoint (sortedRuns campaign) waivers)
        rollups := campaign.rollups.map (deriveRollup floats
          ((campaign.points.map sortHits).map (waivePoint (sortedRuns campaign) waivers))) } := rfl
  rw [happlied, hpoints, hrollups]
  rfl

/-- No evaluation reads the order of a point's runs. -/
theorem evaluate_sortedRuns (criterion : CoverageCriterion) (waivers : ApprovedWaiverSet) :
    evaluateCoverageCampaign floats sha256 (sortedRuns campaign) (some criterion) waivers =
      sortedRuns (evaluateCoverageCampaign floats sha256 campaign (some criterion) waivers) := by
  have hdiagnostics : ∀ findings (document : CoverageCampaign),
      diagnosticsOf findings (sortedRuns document) criterion =
        diagnosticsOf findings document criterion := fun _ _ => rfl
  simp only [evaluateCoverageCampaign, matchCampaign_sortedRuns, applyWaivers_sortedRuns,
    hdiagnostics]
  split <;> rfl

theorem unwaivePoint_freezePoint (point : CoveragePoint) :
    unwaivePoint (freezePoint point) = sortHits (unwaivePoint point) := by
  obtain ⟨id, identity, hits, disposition⟩ := point
  cases disposition <;> rfl

/-- Taking the approvals back from a loaded Campaign. -/
theorem unwaived_frozen (document : CoverageCampaign) :
    unwaived floats (frozen document) =
      { sortedRuns (unwaived floats document) with
        evaluation := (frozen document).evaluation } := by
  have hpoints : (document.points.map freezePoint).map unwaivePoint =
      (document.points.map unwaivePoint).map sortHits := by
    rw [List.map_map, List.map_map]
    exact List.map_congr_left fun point _ => unwaivePoint_freezePoint point
  have hrollups : document.rollups.map
        (deriveRollup floats ((document.points.map unwaivePoint).map sortHits)) =
      document.rollups.map (deriveRollup floats (document.points.map unwaivePoint)) :=
    List.map_congr_left fun rollup _ =>
      deriveRollup_alike (forall₂_map countedAlike_sortHits _) rollup
  have hunwaived : unwaived floats (frozen document) =
      { frozen document with
        points := (document.points.map freezePoint).map unwaivePoint
        rollups := document.rollups.map (deriveRollup floats
          ((document.points.map freezePoint).map unwaivePoint)) } := rfl
  rw [hunwaived, hpoints, hrollups]
  rfl

/-! ## From the store -/

theorem perm_storedThresholds {criterion : CoverageCriterion}
    (honce : (criterion.thresholds.map (·.metric)).Nodup) :
    (sortFields (storedThresholds floats criterion)).Perm (storedThresholds floats criterion) := by
  have hsorted : (storedThresholds floats criterion).map (fun field =>
      (field.1, sortKeys field.2)) = storedThresholds floats criterion := by
    rw [storedThresholds_eq honce, List.map_map]
    rfl
  have hperm := perm_sortFields (storedThresholds floats criterion)
  rwa [hsorted] at hperm

theorem storedThresholds_nodup {criterion : CoverageCriterion}
    (honce : (criterion.thresholds.map (·.metric)).Nodup) :
    ((storedThresholds floats criterion).map Prod.fst).Nodup := by
  have htexts := (ordered_nodup honce).map fun _ _ => metricText_inj
  rw [storedThresholds_eq honce]
  simpa [List.map_map, Function.comp_def] using htexts

theorem rederived_sortedRuns (evaluation others : CoverageEvaluation) :
    ({ sortedRuns (rederived floats campaign others) with evaluation := evaluation } :
      CoverageCampaign) = rederived floats (sortedRuns campaign) evaluation := by
  have hrollups : campaign.rollups.map (deriveRollup floats (campaign.points.map sortHits)) =
      campaign.rollups.map (deriveRollup floats campaign.points) :=
    List.map_congr_left fun rollup _ =>
      deriveRollup_alike (forall₂_map countedAlike_sortHits _) rollup
  have hrederived : rederived floats (sortedRuns campaign) evaluation =
      { sortedRuns campaign with
        rollups := campaign.rollups.map (deriveRollup floats (campaign.points.map sortHits))
        evaluation := evaluation } := rfl
  rw [hrederived, hrollups]
  rfl

section Stored

variable {criterion : CoverageCriterion} {waivers : ApprovedWaiverSet}

/-- A scored evaluation keeps its meaning in the store. -/
theorem writable_evaluated (hcampaign : Coherent floats campaign)
    (h : Evaluable campaign waivers.waivers criterion) :
    Writable (evaluateCoverageCampaign floats sha256 campaign (some criterion) waivers) := by
  have heq := evaluate_of_evaluable sha256 hcampaign h
  constructor
  · have hkept : (evaluateCoverageCampaign floats sha256 campaign (some criterion)
        waivers).normalization = campaign.normalization := by
      rw [heq]
      rfl
    rw [hkept]
    rcases hcampaign.normalized h.collected with hword | hword
    · rw [hword]
      decide
    · rw [hword]
      decide
  · rw [status_of_evaluable sha256 hcampaign h]
    split <;> decide
  · rw [heq]
    intro row hrow
    obtain ⟨result, -, rfl⟩ := List.mem_map.mp hrow
    rfl

/-- A scored evaluation is loaded as it was published. -/
theorem load_publish_evaluated (hcampaign : Coherent floats campaign)
    (h : Evaluable campaign waivers.waivers criterion) (hwritten : criterion.Written floats) :
    loadCoverageCampaign floats (publishCoverageCampaign
        (evaluateCoverageCampaign floats sha256 campaign (some criterion) waivers)) =
      .ok (frozen (evaluateCoverageCampaign floats sha256 campaign (some criterion) waivers)) := by
  have hkeys : ((evaluateCoverageCampaign floats sha256 campaign (some criterion)
      waivers).evaluation.thresholds.map Prod.fst).Nodup := by
    rw [evaluate_of_evaluable sha256 hcampaign h]
    exact storedThresholds_nodup hwritten.once
  have hexact := coverage_verdict_exact floats sha256 hcampaign criterion waivers
  exact load_publish hkeys (writable_evaluated hcampaign h) (hexact.2.2.2 hwritten).1

/-- What the store holds of an evaluation is still its criterion. -/
theorem evaluatedUnder_frozen {document : CoverageCampaign} (hwritten : criterion.Written floats)
    (hthresholds : document.evaluation.thresholds = storedThresholds floats criterion)
    (h : EvaluatedUnder floats campaign criterion document) :
    EvaluatedUnder floats campaign criterion (frozen document) where
  target := h.target
  declared := h.declared
  scored := h.scored
  suite := h.suite
  thresholds := by
    show (sortFields document.evaluation.thresholds).Perm _
    rw [hthresholds]
    exact perm_storedThresholds hwritten.once

/-- Evaluating what the store holds of a scored Campaign is evaluating what was collected. -/
theorem strictReevaluation_frozen (hcampaign : Coherent floats campaign)
    (hunwaived : Unwaived campaign) (hwritten : criterion.Written floats)
    (h : Evaluable campaign waivers.waivers criterion) (others : ApprovedWaiverSet)
    (hscored : (evaluateCoverageCampaign floats sha256 campaign (some criterion)
        waivers).evaluation.status = .pass ∨
      (evaluateCoverageCampaign floats sha256 campaign (some criterion)
        waivers).evaluation.status = .fail) :
    strictReevaluation floats sha256
        (frozen (evaluateCoverageCampaign floats sha256 campaign (some criterion) waivers))
        others none =
      .ok (sortedRuns
        (evaluateCoverageCampaign floats sha256 campaign (some criterion) others)) := by
  have hthresholds : (evaluateCoverageCampaign floats sha256 campaign (some criterion)
      waivers).evaluation.thresholds = storedThresholds floats criterion := by
    rw [evaluate_of_evaluable sha256 hcampaign h]
    rfl
  obtain ⟨rebuilt, hrebuilt, halike⟩ := criterionFromEvaluation_alike hwritten
    (evaluatedUnder_frozen hwritten hthresholds (evaluatedUnder_evaluated hscored))
  simp only [strictReevaluation, hrebuilt, except_ok_bind]
  rw [unwaived_frozen, unwaived_evaluated hunwaived, rederived_sortedRuns, evaluate_rederived,
    evaluate_sortedRuns, ← evaluate_alike halike hwritten.once]

end Stored

/-- Of a scored Campaign, strict re-evaluation against other approvals is the evaluation of the
collected Campaign against them, in memory as from the store. -/
theorem strict_reevaluation_exact (floats : Floats) (sha256 : CriterionPayload → String)
    {campaign : CoverageCampaign} (hcampaign : Coherent floats campaign)
    (hunwaived : Unwaived campaign) {criterion : CoverageCriterion}
    (hwritten : criterion.Written floats) (waivers others : ApprovedWaiverSet)
    (hscored : (evaluateCoverageCampaign floats sha256 campaign (some criterion)
        waivers).evaluation.status = .pass ∨
      (evaluateCoverageCampaign floats sha256 campaign (some criterion)
        waivers).evaluation.status = .fail) :
    strictReevaluation floats sha256
        (evaluateCoverageCampaign floats sha256 campaign (some criterion) waivers) others none =
      .ok (evaluateCoverageCampaign floats sha256 campaign (some criterion) others) ∧
    ∃ loaded, loadCoverageCampaign floats (publishCoverageCampaign
        (evaluateCoverageCampaign floats sha256 campaign (some criterion) waivers)) = .ok loaded ∧
      strictReevaluation floats sha256 loaded others none =
        .ok (sortedRuns
          (evaluateCoverageCampaign floats sha256 campaign (some criterion) others)) := by
  have h : Evaluable campaign waivers.waivers criterion := by
    rcases hscored with hpass | hfail
    · exact ((status_pass_iff sha256 hcampaign).mp hpass).1
    · exact ((status_fail_iff sha256 hcampaign).mp hfail).1
  exact ⟨strictReevaluation_evaluated hunwaived hwritten others hscored, _,
    load_publish_evaluated hcampaign h hwritten,
    strictReevaluation_frozen hcampaign hunwaived hwritten h others hscored⟩

/-- An approval of the second line point. -/
def lineWaivers : ApprovedWaiverSet :=
  ⟨[], "sha256:one", [⟨"acme:demo:counter:1.0#sim", "point-1", "unreachable", "waiver-1",
    "waivers/line.toml", "sha256:waiver", [], "rtl/counter.sv"⟩]⟩

/-- A Campaign scored with a waived point is stored, and evaluated again with no approval. -/
theorem strict_reevaluation_line :
    ∃ loaded, loadCoverageCampaign decimals (publishCoverageCampaign
        (evaluateCoverageCampaign decimals (fun _ => "sha256:0") lineCampaign
          (some (lineCriterion [25] none)) lineWaivers)) = .ok loaded ∧
      strictReevaluation decimals (fun _ => "sha256:0") loaded ⟨[], "sha256:empty", []⟩ none =
        .ok (sortedRuns (lineEvaluated (lineCriterion [25] none))) := by
  exact (strict_reevaluation_exact decimals (fun _ => "sha256:0") lineCampaign_coherent
    lineCampaign_unwaived (lineCriterion_written rfl) lineWaivers
    ⟨[], "sha256:empty", []⟩ (.inl (by decide +kernel))).2

end Booley.Coverage
