import Booley.Coverage.Policy

/-!
# Scored points and rollups

What a coverage verdict stands for, in terms of the points of a Campaign and of the approvals
that exclude some of them. The rollups derived after the waivers are the ones the reader
calculates, and they count the scored points and the hit ones.
-/
namespace Booley.Coverage

open Booley.Lib Booley.Lib.Json Booley.Goals

/-! ## What the verdict stands for -/

section Meaning

variable (campaign : CoverageCampaign) (waivers : List ApprovedWaiver)

/-- An eligible point that no approval for the Campaign's Target excludes. -/
def scored (point : CoveragePoint) : Bool :=
  point.disposition.isEligible &&
    !waivers.any fun waiver => waiver.target == campaign.target && waiver.pointId == point.id

def scoredPoints (metric : CoverageMetric) : List CoveragePoint :=
  campaign.points.filter fun point =>
    point.identity.metric == metricText metric && scored campaign waivers point

def CoveragePoint.hit (point : CoveragePoint) : Bool := point.hitsByRun.any fun run => 0 < run.2

def hitPoints (metric : CoverageMetric) : List CoveragePoint :=
  (scoredPoints campaign waivers metric).filter CoveragePoint.hit

/-- The approval names one point, eligible and of the source it was given for. -/
def ApprovedWaiver.Matches (waiver : ApprovedWaiver) : Prop :=
  ∃ point, campaign.points.filter (·.id == waiver.pointId) = [point] ∧
    point.identity.source = some waiver.source ∧ point.disposition.isEligible = true

/-- Everything but the thresholds themselves. -/
structure Evaluable (criterion : CoverageCriterion) : Prop where
  target : criterion.target = campaign.target
  suite : (criterion.requiredTests campaign).Perm campaign.selectedTests
  collected : campaign.collection = .complete
  normalized : campaign.normalization ≠ .incompatible
  available : ∀ item ∈ criterion.thresholds, ∃ capability ∈ campaign.capabilities,
    capability.recordClass = metricText item.metric ∧ capability.status = .reported ∧
    capability.collection = some "supported" ∧ capability.scoring = some "scored_v1"
  denominators : ∀ item ∈ criterion.thresholds, scoredPoints campaign waivers item.metric ≠ []
  waived : ∀ waiver ∈ waivers, waiver.target = campaign.target → waiver.Matches campaign

def CoverageThreshold.Met (item : CoverageThreshold) : Prop :=
  item.minimumPercent * (scoredPoints campaign waivers item.metric).length ≤
    100 * (hitPoints campaign waivers item.metric).length

end Meaning

/-- What the reader has checked of a Campaign's rollups and normalization. -/
structure Coherent (floats : Floats) (campaign : CoverageCampaign) : Prop where
  derived : rollupFindings floats campaign = []
  normalized : campaign.collection = .complete →
    campaign.normalization = .complete ∨ campaign.normalization = .completeWithUnknownRecords

/-- A minimum that was written as a whole number or as a float. -/
def Authored (floats : Floats) (minimum : Rat) : Prop :=
  minimum.den = 1 ∨ ∃ number, minimum = floats.shortest number

/-- Some metric has a minimum, each at most one, and every minimum is a written number. -/
structure CoverageCriterion.Written (floats : Floats) (criterion : CoverageCriterion) : Prop where
  some_metric : criterion.thresholds ≠ []
  once : (criterion.thresholds.map (·.metric)).Nodup
  authored : ∀ item ∈ criterion.thresholds, Authored floats item.minimumPercent

variable {floats : Floats} {campaign : CoverageCampaign}

theorem thresholdNumber_authored {minimum : Rat} (h : Authored floats minimum) :
    thresholdNumber floats minimum = minimum := by
  unfold thresholdNumber
  by_cases hden : minimum.den = 1
  · rw [if_pos hden]
  · obtain ⟨number, hnumber⟩ := h.resolve_left hden
    rw [if_neg hden, hnumber, floats.reads_back]

theorem CoveragePoint.hit_iff (point : CoveragePoint) :
    point.hit = decide (0 < (point.hitsByRun.map Prod.snd).sum) := by
  have hsum : ∀ runs : List (String × Nat),
      (runs.any fun run => decide (0 < run.2)) = decide (0 < (runs.map Prod.snd).sum) := by
    intro runs
    induction runs with
    | nil => rfl
    | cons run rest ih =>
      rw [List.any_cons, ih, List.map_cons, List.sum_cons, ← Bool.decide_or]
      exact decide_eq_decide.mpr (by omega)
  exact hsum _

/-! ## Rollups -/

theorem metricText_inj {a b : CoverageMetric} (h : metricText a = metricText b) : a = b := by
  cases a <;> cases b <;> first | rfl | exact absurd h (by decide)

theorem metricOrder_inj {a b : CoverageMetric} (h : metricOrder a = metricOrder b) : a = b := by
  cases a <;> cases b <;> first | rfl | exact absurd h (by decide)

theorem mem_scoredMetrics (metric : CoverageMetric) : metric ∈ scoredMetrics := by
  cases metric <;> decide

theorem scoredMetrics_nodup : scoredMetrics.Nodup := by decide

theorem rollupFindings_eq_nil : rollupFindings floats campaign = [] ↔
    (campaign.collection = .complete → campaign.rollups = calculateRollups floats campaign.points) ∧
    (campaign.collection ≠ .complete → campaign.rollups = []) := by
  unfold rollupFindings
  cases hcollection : campaign.collection <;> simp [ite_eq_left_iff, List.isEmpty_iff]

theorem metric_of_calculateRollup {metric : CoverageMetric} {points : List CoveragePoint}
    {rollup : CoverageRollup} (h : calculateRollup floats metric points = some rollup) :
    rollup.metric = metricText metric := by
  simp only [calculateRollup] at h
  split at h
  · cases h
  · cases h
    rfl

/-- The rollup found for a metric is the one calculated for it. -/
theorem rollupFor_calculateRollups (metric : CoverageMetric) (points : List CoveragePoint) :
    rollupFor (calculateRollups floats points) metric = calculateRollup floats metric points := by
  have hfound : ∀ metrics : List CoverageMetric, metrics.Nodup →
      (metrics.filterMap fun other => calculateRollup floats other points).filter
          (·.metric == metricText metric) =
        if metric ∈ metrics then (calculateRollup floats metric points).toList else [] := by
    intro metrics hnodup
    induction metrics with
    | nil => rfl
    | cons other rest ih =>
      obtain ⟨hnew, hrest⟩ := List.nodup_cons.mp hnodup
      have ih := ih hrest
      cases hrollup : calculateRollup floats other points with
      | none =>
        rw [List.filterMap_cons, hrollup]
        rw [ih]
        by_cases heq : metric = other
        · subst heq
          simp [hnew, hrollup]
        · simp [heq]
      | some rollup =>
        rw [List.filterMap_cons, hrollup]
        rw [List.filter_cons, ih, metric_of_calculateRollup hrollup]
        by_cases heq : metric = other
        · subst heq
          simp [hnew, hrollup]
        · have hne : (metricText other == metricText metric) = false := by
            simpa using fun h => heq (metricText_inj h).symm
          simp [heq, hne]
  unfold rollupFor calculateRollups
  rw [hfound scoredMetrics scoredMetrics_nodup, if_pos (mem_scoredMetrics metric)]
  cases calculateRollup floats metric points <;> rfl

/-! ## What the counts read of a point -/

/-- Points that every rollup counts alike. -/
structure CountedAlike (point other : CoveragePoint) : Prop where
  metric : other.identity.metric = point.identity.metric
  eligible : other.disposition.isEligible = point.disposition.isEligible
  waived : other.disposition.isWaived = point.disposition.isWaived
  hits : (other.hitsByRun.map Prod.snd).sum = (point.hitsByRun.map Prod.snd).sum

theorem forall₂_map {change : CoveragePoint → CoveragePoint}
    (h : ∀ point, CountedAlike point (change point)) (points : List CoveragePoint) :
    List.Forall₂ CountedAlike points (points.map change) :=
  List.forall₂_map_right_iff.mpr (List.forall₂_same.mpr fun point _ => h point)

section Alike

variable {points others : List CoveragePoint} (h : List.Forall₂ CountedAlike points others)
include h

theorem alike_filter (counts : CoveragePoint → Bool)
    (hcounts : ∀ {point other}, CountedAlike point other → counts other = counts point) :
    List.Forall₂ CountedAlike (points.filter counts) (others.filter counts) := by
  induction h with
  | nil => exact List.Forall₂.nil
  | @cons point other points others halike hrest ih =>
    rw [List.filter_cons, List.filter_cons, hcounts halike]
    by_cases hcount : counts point = true
    · rw [if_pos hcount, if_pos hcount]
      exact List.Forall₂.cons halike ih
    · rw [if_neg hcount, if_neg hcount]
      exact ih

/-- The four counts of a rollup. -/
theorem alike_counts (metric : String) :
    (others.filter (·.identity.metric == metric)).length =
        (points.filter (·.identity.metric == metric)).length ∧
      ((others.filter (·.identity.metric == metric)).filter (·.disposition.isEligible)).length =
        ((points.filter (·.identity.metric == metric)).filter
          (·.disposition.isEligible)).length ∧
      ((others.filter (·.identity.metric == metric)).filter (·.disposition.isWaived)).length =
        ((points.filter (·.identity.metric == metric)).filter (·.disposition.isWaived)).length ∧
      (((others.filter (·.identity.metric == metric)).filter (·.disposition.isEligible)).filter
          fun point => decide (0 < (point.hitsByRun.map Prod.snd).sum)).length =
        (((points.filter (·.identity.metric == metric)).filter (·.disposition.isEligible)).filter
          fun point => decide (0 < (point.hitsByRun.map Prod.snd).sum)).length := by
  have hmatching := alike_filter h (·.identity.metric == metric)
    fun halike => by rw [halike.metric]
  have heligible := alike_filter hmatching (·.disposition.isEligible)
    fun halike => halike.eligible
  have hwaived := alike_filter hmatching (·.disposition.isWaived)
    fun halike => halike.waived
  have hcovered := alike_filter heligible
    (fun point => decide (0 < (point.hitsByRun.map Prod.snd).sum))
    fun halike => by rw [halike.hits]
  exact ⟨hmatching.length_eq.symm, heligible.length_eq.symm, hwaived.length_eq.symm,
    hcovered.length_eq.symm⟩

theorem deriveRollup_alike (rollup : CoverageRollup) :
    deriveRollup floats others rollup = deriveRollup floats points rollup := by
  obtain ⟨hmatching, heligible, hwaived, hcovered⟩ := alike_counts h rollup.metric
  simp only [deriveRollup, hmatching, heligible, hwaived, hcovered, List.isEmpty_iff_length_eq_zero]

theorem calculateRollups_alike :
    calculateRollups floats others = calculateRollups floats points := by
  refine List.filterMap_congr fun metric _ => ?_
  obtain ⟨hmatching, heligible, hwaived, hcovered⟩ := alike_counts h (metricText metric)
  simp only [calculateRollup, hmatching, heligible, hwaived, hcovered,
    List.isEmpty_iff_length_eq_zero]

end Alike

/-- Deriving a calculated rollup over other points of the same metrics is calculating it there. -/
theorem deriveRollup_calculateRollup (metric : CoverageMetric) (points : List CoveragePoint)
    {change : CoveragePoint → CoveragePoint}
    (hkept : ∀ point, (change point).identity = point.identity) :
    (calculateRollup floats metric points).map (deriveRollup floats (points.map change)) =
      calculateRollup floats metric (points.map change) := by
  have hmatching : (points.map change).filter (·.identity.metric == metricText metric) =
      (points.filter (·.identity.metric == metricText metric)).map change := by
    rw [List.filter_map]
    congr 1
    exact List.filter_congr fun point _ => by simp [hkept]
  unfold calculateRollup
  by_cases hempty : (points.filter (·.identity.metric == metricText metric)).isEmpty
  · simp [hmatching, hempty]
  · simp [hmatching, hempty, deriveRollup]

theorem waivePoint_identity (waivers : List ApprovedWaiver) (point : CoveragePoint) :
    (waivePoint campaign waivers point).identity = point.identity := by
  unfold waivePoint
  split <;> rfl

theorem waivePoint_hits (waivers : List ApprovedWaiver) (point : CoveragePoint) :
    (waivePoint campaign waivers point).hit = point.hit := by
  unfold waivePoint
  split <;> rfl

/-- The points left eligible are the ones that no approval excludes. -/
theorem waivePoint_eligible (waivers : List ApprovedWaiver) (point : CoveragePoint) :
    (waivePoint campaign waivers point).disposition.isEligible = scored campaign waivers point := by
  have hnone : waiverOf campaign waivers point = none ↔
      (waivers.any fun waiver => waiver.target == campaign.target && waiver.pointId == point.id) =
        false := by
    simp [waiverOf]
  unfold waivePoint scored
  cases hwaiver : waiverOf campaign waivers point with
  | none => simp [hnone.mp hwaiver]
  | some waiver =>
    have hany : (waivers.any fun waiver => waiver.target == campaign.target &&
        waiver.pointId == point.id) = true := by
      by_contra hfalse
      rw [hnone.mpr (by simpa using hfalse)] at hwaiver
      cases hwaiver
    cases hkind : point.disposition <;> simp [hany, Disposition.isEligible, hkind]

/-- The rollups derived after the waivers are the ones the reader calculates. -/
theorem rollups_applyWaivers (hcampaign : Coherent floats campaign)
    (waivers : List ApprovedWaiver) :
    rollupFindings floats (applyWaivers floats campaign waivers) = [] := by
  obtain ⟨hcomplete, hother⟩ := rollupFindings_eq_nil.mp hcampaign.derived
  refine rollupFindings_eq_nil.mpr ⟨fun h => ?_, fun h => ?_⟩
  · show campaign.rollups.map (deriveRollup floats _) = _
    rw [hcomplete h, calculateRollups, List.map_filterMap]
    exact List.filterMap_congr fun metric _ =>
      deriveRollup_calculateRollup metric _ (waivePoint_identity waivers)
  · show campaign.rollups.map _ = []
    rw [hother h, List.map_nil]

section Counts

variable (hcampaign : Coherent floats campaign) (hcollected : campaign.collection = .complete)
  (waivers : List ApprovedWaiver) (metric : CoverageMetric)
include hcampaign hcollected

theorem rollupFor_applyWaivers :
    rollupFor (applyWaivers floats campaign waivers).rollups metric =
      calculateRollup floats metric (campaign.points.map (waivePoint campaign waivers)) := by
  rw [(rollupFindings_eq_nil.mp (rollups_applyWaivers hcampaign waivers)).1 hcollected,
    rollupFor_calculateRollups]
  rfl

omit hcampaign hcollected in
theorem eligible_applyWaivers :
    ((campaign.points.map (waivePoint campaign waivers)).filter
        (·.identity.metric == metricText metric)).filter (·.disposition.isEligible) =
      (scoredPoints campaign waivers metric).map (waivePoint campaign waivers) := by
  rw [List.filter_filter, List.filter_map, scoredPoints]
  congr 1
  refine List.filter_congr fun point _ => ?_
  simp [waivePoint_identity, waivePoint_eligible, Bool.and_comm]

omit hcampaign hcollected in
theorem covered_applyWaivers :
    (((scoredPoints campaign waivers metric).map (waivePoint campaign waivers)).filter fun point =>
        decide (0 < (point.hitsByRun.map Prod.snd).sum)) =
      (hitPoints campaign waivers metric).map (waivePoint campaign waivers) := by
  rw [List.filter_map, hitPoints]
  congr 1
  refine List.filter_congr fun point _ => ?_
  rw [Function.comp_apply, ← CoveragePoint.hit_iff, waivePoint_hits]

theorem scoredPoints_of_no_rollup
    (h : rollupFor (applyWaivers floats campaign waivers).rollups metric = none) :
    scoredPoints campaign waivers metric = [] := by
  rw [rollupFor_applyWaivers hcampaign hcollected] at h
  have heligible := @eligible_applyWaivers campaign waivers metric
  simp only [calculateRollup] at h
  split at h
  next hempty =>
    rw [List.isEmpty_iff.mp hempty, List.filter_nil] at heligible
    exact List.map_eq_nil_iff.mp heligible.symm
  · cases h

/-- A metric's rollup after the waivers counts its scored points and the hit ones. -/
theorem counts_of_rollup {rollup : CoverageRollup}
    (h : rollupFor (applyWaivers floats campaign waivers).rollups metric = some rollup) :
    rollup.eligiblePoints = (scoredPoints campaign waivers metric).length ∧
      rollup.coveredPoints = (hitPoints campaign waivers metric).length := by
  rw [rollupFor_applyWaivers hcampaign hcollected] at h
  simp only [calculateRollup, eligible_applyWaivers, covered_applyWaivers, List.length_map] at h
  split at h
  · cases h
  · cases h
    exact ⟨rfl, rfl⟩

end Counts

end Booley.Coverage
