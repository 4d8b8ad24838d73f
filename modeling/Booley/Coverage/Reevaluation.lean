import Booley.Coverage.Acceptance
import Booley.Lib.JsonText

/-!
# Evaluating a stored Campaign again

A scored Campaign is evaluated against another set of approvals: its points are taken back to what
they were before the first, and the criterion is rebuilt from the stored evaluation. What comes out
is the evaluation of the Campaign that was collected.
-/
namespace Booley.Coverage

open Booley.Lib Booley.Lib.Json Booley.Goals

/-! ## Taking the approvals back -/

def unwaivePoint (point : CoveragePoint) : CoveragePoint :=
  if point.disposition.isWaived then { point with disposition := .eligible } else point

/-- The Campaign before any approved waiver was applied to its points. -/
def unwaived (floats : Floats) (campaign : CoverageCampaign) : CoverageCampaign :=
  let points := campaign.points.map unwaivePoint
  { campaign with points := points, rollups := campaign.rollups.map (deriveRollup floats points) }

/-! ## The criterion of an evaluation -/

/-- Why the criterion of a stored evaluation cannot be rebuilt. -/
inductive ProvisionalCoverageError where
  | noScoredEvaluation
  | noRequiredSuite
  | malformedThresholds
  | tooManyCandidates (count : Nat)
deriving DecidableEq, Repr

def metricOfText (text : String) : Option CoverageMetric :=
  scoredMetrics.find? (metricText · == text)

/-- A stored minimum as the threshold it was written for. A metric that is not scored would be
refused where the thresholds are put in report order; here it is refused with what is no number. -/
def rebuiltThreshold (field : String × Json) : Option CoverageThreshold :=
  match metricOfText field.1, field.2 with
  | some metric, .number minimum => some ⟨metric, minimum⟩
  | _, _ => none

/-- The criterion a scored strict evaluation was computed with. -/
def criterionFromEvaluation (campaign : CoverageCampaign) :
    Except ProvisionalCoverageError CoverageCriterion :=
  if campaign.evaluation.status ≠ .pass ∧ campaign.evaluation.status ≠ .fail then
    .error .noScoredEvaluation
  else
    match campaign.evaluation.suite with
    | .notEvaluated => .error .noRequiredSuite
    | .evaluated _ required _ =>
      let rebuilt := campaign.evaluation.thresholds.filterMap rebuiltThreshold
      if rebuilt.length ≠ campaign.evaluation.thresholds.length ∨ rebuilt = [] then
        .error .malformedThresholds
      else
        .ok
          { target := campaign.target
            thresholds := rebuilt
            tests := if sortedTests required = sortedTests campaign.declaredTests then none
              else some required }

section Evaluation

variable (floats : Floats) (sha256 : CriterionPayload → String)

/-- Evaluate a stored Campaign strictly against a set of approvals, under its own criterion unless
another is given. -/
def strictReevaluation (campaign : CoverageCampaign) (waivers : ApprovedWaiverSet)
    (criterion : Option CoverageCriterion) : Except ProvisionalCoverageError CoverageCampaign := do
  let criterion ← match criterion with
    | some criterion => .ok criterion
    | none => criterionFromEvaluation campaign
  .ok (evaluateCoverageCampaign floats sha256 (unwaived floats campaign) (some criterion) waivers)

end Evaluation

/-! ## Back to the collected points -/

variable {floats : Floats} {campaign : CoverageCampaign} {sha256 : CriterionPayload → String}

/-- A Campaign as it was collected: no approval has been applied to it. -/
def Unwaived (campaign : CoverageCampaign) : Prop :=
  ∀ point ∈ campaign.points, point.disposition.isWaived = false

theorem unwaivePoint_waivePoint (waivers : List ApprovedWaiver) {point : CoveragePoint}
    (h : point.disposition.isWaived = false) :
    unwaivePoint (waivePoint campaign waivers point) = point := by
  unfold waivePoint
  split
  next waiver _ hkind =>
    obtain ⟨id, identity, hits, disposition⟩ := point
    cases hkind
    rfl
  next =>
    unfold unwaivePoint
    rw [h]
    rfl

/-- Only the metric and the semantics of a rollup are left when it is derived again. -/
theorem deriveRollup_deriveRollup (points others : List CoveragePoint) (rollup : CoverageRollup) :
    deriveRollup floats points (deriveRollup floats others rollup) =
      deriveRollup floats points rollup := rfl

/-- What a Campaign becomes when its rollups are derived from its points and its evaluation is
replaced. -/
def rederived (floats : Floats) (campaign : CoverageCampaign) (evaluation : CoverageEvaluation) :
    CoverageCampaign :=
  { campaign with
    rollups := campaign.rollups.map (deriveRollup floats campaign.points)
    evaluation := evaluation }

theorem unwaived_evaluated (hunwaived : Unwaived campaign) (criterion : Option CoverageCriterion)
    (waivers : ApprovedWaiverSet) :
    unwaived floats (evaluateCoverageCampaign floats sha256 campaign criterion waivers) =
      rederived floats campaign
        (evaluateCoverageCampaign floats sha256 campaign criterion waivers).evaluation := by
  obtain ⟨evaluation, heq⟩ : ∃ evaluation,
      evaluateCoverageCampaign floats sha256 campaign criterion waivers =
        { waivedCampaign floats campaign waivers with evaluation := evaluation } :=
    evaluated_kept sha256
  have hpoints : (campaign.points.map (waivePoint campaign
      (matchCampaign waivers.waivers campaign).waivers)).map unwaivePoint = campaign.points := by
    rw [List.map_map]
    refine (List.map_congr_left ?_).trans (List.map_id _)
    exact fun point hpoint => unwaivePoint_waivePoint _ (hunwaived point hpoint)
  rw [heq]
  simp only [unwaived, waivedCampaign, applyWaivers, rederived, hpoints, List.map_map,
    Function.comp_def, deriveRollup_deriveRollup]

/-- The evaluation reads the rollups only as they are derived from the points. -/
theorem evaluate_rederived (evaluation : CoverageEvaluation) (criterion : CoverageCriterion)
    (waivers : ApprovedWaiverSet) :
    evaluateCoverageCampaign floats sha256 (rederived floats campaign evaluation) (some criterion)
        waivers = evaluateCoverageCampaign floats sha256 campaign (some criterion) waivers := by
  have happlied : ∀ matched, applyWaivers floats (rederived floats campaign evaluation) matched =
      { applyWaivers floats campaign matched with evaluation := evaluation } := by
    intro matched
    simp only [applyWaivers, rederived, List.map_map, Function.comp_def,
      deriveRollup_deriveRollup]
    rfl
  have hmatch : matchCampaign waivers.waivers (rederived floats campaign evaluation) =
      matchCampaign waivers.waivers campaign := rfl
  simp only [evaluateCoverageCampaign, hmatch, happlied]
  rfl

/-! ## Criteria that evaluate alike -/

/-- The same Target, thresholds in another order, and a suite of the same Tests. -/
structure CoverageCriterion.Alike (campaign : CoverageCampaign)
    (criterion other : CoverageCriterion) : Prop where
  target : criterion.target = other.target
  thresholds : criterion.thresholds.Perm other.thresholds
  suite : (criterion.requiredTests campaign).Perm (other.requiredTests campaign)

theorem sortedMetrics_perm {metrics others : List CoverageMetric} (h : metrics.Perm others) :
    sortedMetrics metrics = sortedMetrics others := by
  have htotal : Std.Total fun a b : CoverageMetric => metricOrder a ≤ metricOrder b :=
    ⟨fun a b => Nat.le_total _ _⟩
  have htrans : IsTrans CoverageMetric fun a b => metricOrder a ≤ metricOrder b :=
    ⟨fun _ _ _ => Nat.le_trans⟩
  refine List.Perm.eq_of_pairwise ?_ (List.pairwise_insertionSort _ metrics)
    (List.pairwise_insertionSort _ others) ?_
  · intro a b _ _ hab hba
    exact metricOrder_inj (Nat.le_antisymm hab hba)
  · exact (List.perm_insertionSort _ _).trans (h.trans (List.perm_insertionSort _ _).symm)

section Alike

variable {criterion other : CoverageCriterion}

theorem ordered_perm (honce : (criterion.thresholds.map (·.metric)).Nodup)
    (h : criterion.thresholds.Perm other.thresholds) : criterion.ordered = other.ordered := by
  have htotal : Std.Total fun a b : CoverageThreshold =>
      metricOrder a.metric ≤ metricOrder b.metric := ⟨fun a b => Nat.le_total _ _⟩
  have htrans : IsTrans CoverageThreshold fun a b => metricOrder a.metric ≤ metricOrder b.metric :=
    ⟨fun _ _ _ => Nat.le_trans⟩
  refine List.Perm.eq_of_pairwise ?_ (List.pairwise_insertionSort
    (fun a b : CoverageThreshold => metricOrder a.metric ≤ metricOrder b.metric) _)
    (List.pairwise_insertionSort
      (fun a b : CoverageThreshold => metricOrder a.metric ≤ metricOrder b.metric) _) ?_
  · intro a b ha hb hab hba
    have hb := h.mem_iff.mpr ((List.mem_insertionSort _).mp hb)
    exact List.inj_on_of_nodup_map honce ((List.mem_insertionSort _).mp ha) hb
      (metricOrder_inj (Nat.le_antisymm hab hba))
  · exact (List.perm_insertionSort _ _).trans (h.trans (List.perm_insertionSort _ _).symm)

theorem diagnosticsOf_alike (h : criterion.Alike campaign other) (findings : List Diagnostic) :
    diagnosticsOf findings campaign criterion = diagnosticsOf findings campaign other := by
  have hsuite := (sortedTests_eq_iff _ _).mpr h.suite
  have hmetrics : ∀ p : CoverageMetric → Bool,
      sortedMetrics ((criterion.thresholds.map (·.metric)).filter p) =
        sortedMetrics ((other.thresholds.map (·.metric)).filter p) :=
    fun p => sortedMetrics_perm ((h.thresholds.map _).filter p)
  simp only [diagnosticsOf, evidenceDiagnostics, targetSuiteDiagnostics,
    emptyDenominatorDiagnostics, h.target, hsuite, hmetrics]

/-- Criteria that are alike give the same evaluation, its fingerprint included. -/
theorem evaluate_alike (h : criterion.Alike campaign other)
    (honce : (criterion.thresholds.map (·.metric)).Nodup) (waivers : ApprovedWaiverSet) :
    evaluateCoverageCampaign floats sha256 campaign (some criterion) waivers =
      evaluateCoverageCampaign floats sha256 campaign (some other) waivers := by
  have hordered := ordered_perm honce h.thresholds
  have happlied : ∀ matched, criterion.Alike (applyWaivers floats campaign matched) other :=
    fun matched => ⟨h.target, h.thresholds, h.suite⟩
  have hsuite : ∀ matched,
      sortedTests (criterion.requiredTests (applyWaivers floats campaign matched)) =
        sortedTests (other.requiredTests (applyWaivers floats campaign matched)) :=
    fun matched => (sortedTests_eq_iff _ _).mpr (happlied matched).suite
  have hstored : storedThresholds floats criterion = storedThresholds floats other := by
    rw [storedThresholds, storedThresholds, hordered]
  have hrows : ∀ matched, scoredRows floats (applyWaivers floats campaign matched) criterion =
      scoredRows floats (applyWaivers floats campaign matched) other := by
    intro matched
    rw [scoredRows, scoredRows, hordered]
  have hfingerprint : ∀ matched,
      criterionFingerprint sha256 criterion
          (criterion.requiredTests (applyWaivers floats campaign matched)) waivers =
        criterionFingerprint sha256 other
          (other.requiredTests (applyWaivers floats campaign matched)) waivers := by
    intro matched
    rw [criterionFingerprint, criterionFingerprint, h.target, hordered, hsuite]
  have hscored : ∀ matched,
      scoredCampaign floats sha256 (applyWaivers floats campaign matched) criterion waivers
          (criterion.requiredTests (applyWaivers floats campaign matched)) =
        scoredCampaign floats sha256 (applyWaivers floats campaign matched) other waivers
          (other.requiredTests (applyWaivers floats campaign matched)) := by
    intro matched
    rw [scoredCampaign, scoredCampaign, hrows, hfingerprint, hsuite, hstored]
  have hblocked : ∀ matched diagnostics,
      blockedCampaign floats sha256 (applyWaivers floats campaign matched) criterion waivers
          (criterion.requiredTests (applyWaivers floats campaign matched)) diagnostics =
        blockedCampaign floats sha256 (applyWaivers floats campaign matched) other waivers
          (other.requiredTests (applyWaivers floats campaign matched)) diagnostics := by
    intro matched diagnostics
    rw [blockedCampaign, blockedCampaign, hfingerprint, hsuite, hstored]
  simp only [evaluateCoverageCampaign, diagnosticsOf_alike (happlied _), hscored, hblocked]

end Alike

/-! ## The criterion that was evaluated -/

theorem metricOfText_eq_some {text : String} {metric : CoverageMetric} :
    metricOfText text = some metric ↔ text = metricText metric := by
  constructor
  · intro h
    unfold metricOfText at h
    have hfound := List.find?_some h
    exact (eq_of_beq hfound).symm
  · rintro rfl
    cases metric <;> rfl

theorem storedThresholds_eq {criterion : CoverageCriterion}
    (honce : (criterion.thresholds.map (·.metric)).Nodup) :
    storedThresholds floats criterion = criterion.ordered.map fun item =>
      (metricText item.metric, .number (thresholdNumber floats item.minimumPercent)) := by
  have hkeys : ((criterion.ordered.map fun item => (metricText item.metric,
      Json.number (thresholdNumber floats item.minimumPercent))).map Prod.fst).Nodup := by
    have htexts := (ordered_nodup honce).map fun _ _ => metricText_inj
    simpa [List.map_map, Function.comp_def] using htexts
  rw [← dictOf_of_nodup hkeys, dictOf, List.foldl_map]
  rfl

/-- Authored minima are read back from what is stored of them. -/
theorem rebuilt_storedThresholds {criterion : CoverageCriterion} (h : criterion.Written floats) :
    (storedThresholds floats criterion).filterMap rebuiltThreshold = criterion.ordered := by
  rw [storedThresholds_eq h.once, List.filterMap_map]
  refine (List.filterMap_congr ?_).trans (List.filterMap_some ..)
  intro item hitem
  have hitem := mem_ordered.mp hitem
  have hmetric : metricOfText (metricText item.metric) = some item.metric :=
    metricOfText_eq_some.mpr rfl
  simp only [Function.comp_apply, rebuiltThreshold, hmetric,
    thresholdNumber_authored (h.authored item hitem)]

/-- What a scored evaluation of a criterion holds of it, its thresholds in any order. -/
structure EvaluatedUnder (floats : Floats) (campaign : CoverageCampaign)
    (criterion : CoverageCriterion) (document : CoverageCampaign) : Prop where
  target : document.target = criterion.target
  declared : document.declaredTests = campaign.declaredTests
  scored : document.evaluation.status = .pass ∨ document.evaluation.status = .fail
  suite : ∃ status selected, document.evaluation.suite =
    .evaluated status (sortedTests (criterion.requiredTests campaign)) selected
  thresholds : document.evaluation.thresholds.Perm (storedThresholds floats criterion)

/-- The criterion rebuilt from a scored evaluation is alike the one evaluated. -/
theorem criterionFromEvaluation_alike {criterion : CoverageCriterion}
    {document : CoverageCampaign} (hwritten : criterion.Written floats)
    (h : EvaluatedUnder floats campaign criterion document) :
    ∃ rebuilt, criterionFromEvaluation document = .ok rebuilt ∧
      criterion.Alike campaign rebuilt := by
  obtain ⟨status, selected, hsuite⟩ := h.suite
  have hperm : (document.evaluation.thresholds.filterMap rebuiltThreshold).Perm
      criterion.ordered := rebuilt_storedThresholds hwritten ▸ h.thresholds.filterMap _
  have hordered : criterion.ordered.Perm criterion.thresholds := List.perm_insertionSort _ _
  have hlength : (document.evaluation.thresholds.filterMap rebuiltThreshold).length =
      document.evaluation.thresholds.length := by
    rw [hperm.length_eq, h.thresholds.length_eq, storedThresholds_eq hwritten.once,
      List.length_map]
  have hsome : document.evaluation.thresholds.filterMap rebuiltThreshold ≠ [] := by
    intro hnil
    rw [hnil] at hperm
    have hnone := (hperm.trans hordered).symm.eq_nil
    exact hwritten.some_metric hnone
  have hstatus : ¬ (document.evaluation.status ≠ .pass ∧ document.evaluation.status ≠ .fail) := by
    rintro ⟨hpass, hfail⟩
    exact h.scored.elim hpass hfail
  have hrebuilt : criterionFromEvaluation document = .ok
      { target := document.target
        thresholds := document.evaluation.thresholds.filterMap rebuiltThreshold
        tests := if sortedTests (sortedTests (criterion.requiredTests campaign)) =
          sortedTests document.declaredTests then none
          else some (sortedTests (criterion.requiredTests campaign)) } := by
    unfold criterionFromEvaluation
    rw [if_neg hstatus, hsuite]
    dsimp only
    rw [if_neg (not_or.mpr ⟨fun hne => hne hlength, hsome⟩)]
  refine ⟨_, hrebuilt, h.target.symm, (hperm.trans hordered).symm, ?_⟩
  have hsorted : (sortedTests (criterion.requiredTests campaign)).Perm
      (criterion.requiredTests campaign) := List.perm_insertionSort _ _
  by_cases hfull : sortedTests (sortedTests (criterion.requiredTests campaign)) =
      sortedTests document.declaredTests
  · have hdeclared := hfull
    rw [h.declared, sortedTests_eq_iff] at hdeclared
    rw [if_pos hfull]
    exact hsorted.symm.trans hdeclared
  · rw [if_neg hfull]
    exact hsorted.symm

/-- A scored evaluation holds its criterion. -/
theorem evaluatedUnder_evaluated {criterion : CoverageCriterion} {waivers : ApprovedWaiverSet}
    (hscored : (evaluateCoverageCampaign floats sha256 campaign (some criterion)
        waivers).evaluation.status = .pass ∨
      (evaluateCoverageCampaign floats sha256 campaign (some criterion)
        waivers).evaluation.status = .fail) :
    EvaluatedUnder floats campaign criterion
      (evaluateCoverageCampaign floats sha256 campaign (some criterion) waivers) := by
  by_cases hclear : diagnosticsOf (matchCampaign waivers.waivers campaign).findings
      (applyWaivers floats campaign (matchCampaign waivers.waivers campaign).waivers) criterion = []
  · have heq : evaluateCoverageCampaign floats sha256 campaign (some criterion) waivers =
        scoredCampaign floats sha256 (applyWaivers floats campaign
          (matchCampaign waivers.waivers campaign).waivers) criterion waivers
            (criterion.requiredTests campaign) := by
      simp only [evaluateCoverageCampaign, hclear]
      rfl
    rw [heq] at hscored ⊢
    have htarget : criterion.target = campaign.target := by
      unfold diagnosticsOf at hclear
      rw [List.append_eq_nil_iff, List.append_eq_nil_iff, evidenceDiagnostics_eq_nil] at hclear
      exact hclear.1.2.1.1
    exact ⟨htarget.symm, rfl, hscored, ⟨_, _, rfl⟩, List.Perm.refl _⟩
  · have hblocked : (evaluateCoverageCampaign floats sha256 campaign (some criterion)
        waivers).evaluation.status = .blocked := by
      simp only [evaluateCoverageCampaign]
      rw [if_neg (by simpa using hclear)]
      rfl
    rw [hblocked] at hscored
    rcases hscored with h | h <;> cases h

/-- Evaluating a scored Campaign again is evaluating what was collected. -/
theorem strictReevaluation_evaluated (hunwaived : Unwaived campaign)
    {criterion : CoverageCriterion} (hwritten : criterion.Written floats)
    {waivers : ApprovedWaiverSet} (others : ApprovedWaiverSet)
    (hscored : (evaluateCoverageCampaign floats sha256 campaign (some criterion)
        waivers).evaluation.status = .pass ∨
      (evaluateCoverageCampaign floats sha256 campaign (some criterion)
        waivers).evaluation.status = .fail) :
    strictReevaluation floats sha256
        (evaluateCoverageCampaign floats sha256 campaign (some criterion) waivers) others none =
      .ok (evaluateCoverageCampaign floats sha256 campaign (some criterion) others) := by
  obtain ⟨rebuilt, hrebuilt, halike⟩ :=
    criterionFromEvaluation_alike hwritten (evaluatedUnder_evaluated hscored)
  simp only [strictReevaluation, hrebuilt, except_ok_bind]
  rw [unwaived_evaluated hunwaived, evaluate_rederived, ← evaluate_alike halike hwritten.once]

theorem lineCampaign_unwaived : Unwaived lineCampaign := by
  intro point hpoint
  have hall : lineCampaign.points.all (fun point => !point.disposition.isWaived) = true := by
    decide
  simpa using List.all_eq_true.mp hall point hpoint

end Booley.Coverage
