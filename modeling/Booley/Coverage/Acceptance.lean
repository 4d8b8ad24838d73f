import Booley.Coverage.Verdict

/-!
# Reading an evaluation back

The reader derives the rows of a stored evaluation from its thresholds and the stored rollups,
with no part in the policy evaluation. It accepts what that evaluation stored for written minima,
and no other scored evaluation of the same points and thresholds.
-/
namespace Booley.Coverage

open Booley.Lib Booley.Lib.Json Booley.Goals

variable {floats : Floats} {campaign : CoverageCampaign}

/-! ## Thresholds in report order -/

theorem ordered_nodup {criterion : CoverageCriterion}
    (honce : (criterion.thresholds.map (·.metric)).Nodup) :
    (criterion.ordered.map (·.metric)).Nodup :=
  ((List.perm_insertionSort _ _).map _).nodup_iff.mpr honce

theorem find_ordered_iff {criterion : CoverageCriterion}
    (honce : (criterion.thresholds.map (·.metric)).Nodup) {metric : CoverageMetric}
    {item : CoverageThreshold} :
    (criterion.ordered.find? fun item => metricText item.metric == metricText metric) = some item ↔
      item ∈ criterion.ordered ∧ item.metric = metric := by
  constructor
  · intro hfind
    have hmetric := List.find?_some hfind
    exact ⟨List.mem_of_find?_eq_some hfind, metricText_inj (eq_of_beq hmetric)⟩
  · rintro ⟨hmem, hmetric⟩
    cases hfind : criterion.ordered.find? fun item =>
        metricText item.metric == metricText metric with
    | none =>
      have hne := List.find?_eq_none.mp hfind item hmem
      simp [hmetric] at hne
    | some other =>
      have hother := List.find?_some hfind
      rw [List.inj_on_of_nodup_map (ordered_nodup honce) (List.mem_of_find?_eq_some hfind) hmem
        ((metricText_inj (eq_of_beq hother)).trans hmetric.symm)]

/-- The ordered thresholds are the metrics in report order, each with its threshold if any. -/
theorem ordered_eq {criterion : CoverageCriterion}
    (honce : (criterion.thresholds.map (·.metric)).Nodup) :
    criterion.ordered = scoredMetrics.filterMap fun metric =>
      criterion.ordered.find? fun item => metricText item.metric == metricText metric := by
  have htotal : Std.Total fun a b : CoverageThreshold =>
      metricOrder a.metric ≤ metricOrder b.metric := ⟨fun a b => Nat.le_total _ _⟩
  have htrans : IsTrans CoverageThreshold fun a b => metricOrder a.metric ≤ metricOrder b.metric :=
    ⟨fun _ _ _ => Nat.le_trans⟩
  have hmem : ∀ item, item ∈ scoredMetrics.filterMap (fun metric => criterion.ordered.find?
      fun item => metricText item.metric == metricText metric) ↔ item ∈ criterion.ordered := by
    intro item
    simp only [List.mem_filterMap, find_ordered_iff honce]
    exact ⟨fun ⟨_, _, hitem, _⟩ => hitem,
      fun hitem => ⟨item.metric, mem_scoredMetrics _, hitem, rfl⟩⟩
  have hsorted : scoredMetrics.Pairwise fun a b => metricOrder a < metricOrder b := by decide
  have hstrict : (scoredMetrics.filterMap fun metric => criterion.ordered.find?
      fun item => metricText item.metric == metricText metric).Pairwise
        fun a b => metricOrder a.metric < metricOrder b.metric := by
    refine hsorted.filterMap _ fun a b hlt item hitem other hother => ?_
    rw [((find_ordered_iff honce).mp hitem).2, ((find_ordered_iff honce).mp hother).2]
    exact hlt
  refine List.Perm.eq_of_pairwise ?_ (List.pairwise_insertionSort
    (fun a b : CoverageThreshold => metricOrder a.metric ≤ metricOrder b.metric) _)
    (hstrict.imp Nat.le_of_lt) ?_
  · intro a b ha hb hab hba
    have hmetric : a.metric = b.metric := metricOrder_inj (Nat.le_antisymm hab hba)
    exact List.inj_on_of_nodup_map (ordered_nodup honce) ha ((hmem b).mp hb) hmetric
  · refine (List.perm_ext_iff_of_nodup (List.Nodup.of_map _ (ordered_nodup honce)) ?_).mpr
      fun item => (hmem item).symm
    exact hstrict.imp fun hlt heq => by simp [heq] at hlt

/-! ## What the reader expects -/

theorem storedThresholds_get {criterion : CoverageCriterion}
    (honce : (criterion.thresholds.map (·.metric)).Nodup) (metric : CoverageMetric) :
    (storedThresholds floats criterion).get (metricText metric) =
      (criterion.ordered.find? fun item => metricText item.metric == metricText metric).map
        fun item => .number (thresholdNumber floats item.minimumPercent) := by
  have hkeys : (criterion.ordered.map fun item => metricText item.metric).Nodup := by
    have htexts := (ordered_nodup honce).map fun _ _ => metricText_inj
    rwa [List.map_map] at htexts
  unfold storedThresholds
  rw [Fields.get_foldl_set hkeys, Fields.get, List.lookup_nil, Option.or_none]

theorem storedThresholds_scored (criterion : CoverageCriterion) :
    ((storedThresholds floats criterion).all fun field =>
      (scoredMetrics.map metricText).contains field.1) = true := by
  rw [List.all_eq_true]
  intro field hfield
  rcases Fields.mem_foldl_set hfield with hnil | ⟨item, -, heq⟩
  · cases hnil
  · rw [heq, List.contains_iff_mem]
    exact List.mem_map_of_mem (mem_scoredMetrics item.metric)

section Accepted

variable (sha256 : CriterionPayload → String) {criterion : CoverageCriterion} {waivers : ApprovedWaiverSet}
  (hcampaign : Coherent floats campaign) (h : Evaluable campaign waivers.waivers criterion)
  (hwritten : criterion.Written floats) {document : CoverageCampaign}
  (hrollups : document.rollups = (waivedCampaign floats campaign waivers).rollups)
  (hthresholds : document.evaluation.thresholds = storedThresholds floats criterion)
include hcampaign h hwritten hrollups hthresholds

theorem expectedRows_eq (metrics : List CoverageMetric) :
    expectedRows document metrics = some ((metrics.filterMap fun metric =>
      criterion.ordered.find? fun item => metricText item.metric == metricText metric).filterMap
        fun item => (rollupFor (waivedCampaign floats campaign waivers).rollups item.metric).map
          fun rollup => metricResult floats rollup item) := by
  induction metrics with
  | nil => rfl
  | cons metric rest ih =>
    unfold expectedRows
    rw [hthresholds, storedThresholds_get hwritten.once, List.filterMap_cons]
    cases hfind : criterion.ordered.find? fun item =>
        metricText item.metric == metricText metric with
    | none => exact ih
    | some item =>
      obtain ⟨hitem, hmetric⟩ := (find_ordered_iff hwritten.once).mp hfind
      have hitem := mem_ordered.mp hitem
      obtain ⟨rollup, hrollup, heligible⟩ := exists_rollup hcampaign h hitem
      have hrow : expectedRow (rollupFor document.rollups metric) metric
          (.number (thresholdNumber floats item.minimumPercent)) =
          some (metricResult floats rollup item) := by
        rw [hrollups, ← hmetric, hrollup, expectedRow, if_neg heligible, metricResult,
          thresholdNumber_authored (hwritten.authored item hitem)]
      simp only [Option.map_some, hrow, ih, List.filterMap_cons, hrollup]

theorem expectedEvaluationMetrics_eq : expectedEvaluationMetrics document =
    some (scoredRows floats (waivedCampaign floats campaign waivers) criterion) := by
  unfold expectedEvaluationMetrics
  rw [hthresholds, if_pos (storedThresholds_scored criterion),
    expectedRows_eq hcampaign h hwritten hrollups hthresholds, ← ordered_eq hwritten.once]
  rfl

omit hrollups hthresholds in
theorem scoredRows_ne_nil :
    scoredRows floats (waivedCampaign floats campaign waivers) criterion ≠ [] := by
  intro hnil
  obtain ⟨item, hitem⟩ := List.exists_mem_of_ne_nil _ hwritten.some_metric
  obtain ⟨rollup, hrollup, -⟩ := exists_rollup hcampaign h hitem
  have hrow := List.filterMap_eq_nil_iff.mp hnil item (mem_ordered.mpr hitem)
  rw [hrollup] at hrow
  cases hrow

omit hrollups hthresholds in
theorem expectedStatus_scoredRows :
    expectedStatus (some (scoredRows floats (waivedCampaign floats campaign waivers) criterion)) =
      (evaluateCoverageCampaign floats sha256 campaign (some criterion)
        waivers).evaluation.status := by
  rw [status_of_evaluable sha256 hcampaign h]
  have hsome := scoredRows_ne_nil hcampaign h hwritten
  cases hrows : scoredRows floats (waivedCampaign floats campaign waivers) criterion with
  | nil => exact absurd hrows hsome
  | cons row rows => rfl

/-- A scored evaluation of these points and thresholds is accepted when it has the rows and the
status of the policy evaluation, and otherwise not. -/
theorem validateEvaluation_eq_nil (hcollected : document.collection = .complete)
    (hscored : document.evaluation.status = .pass ∨ document.evaluation.status = .fail) :
    validateEvaluation document = [] ↔
      document.evaluation.metrics =
          (scoredRows floats (waivedCampaign floats campaign waivers) criterion).map some ∧
        document.evaluation.status =
          (evaluateCoverageCampaign floats sha256 campaign (some criterion)
            waivers).evaluation.status := by
  have hexpected := expectedEvaluationMetrics_eq hcampaign h hwritten hrollups hthresholds
  have hstatus := expectedStatus_scoredRows sha256 hcampaign h hwritten
  have hfindings : validateEvaluation document =
      if some document.evaluation.metrics = some
            ((scoredRows floats (waivedCampaign floats campaign waivers) criterion).map some) ∧
          document.evaluation.status = (evaluateCoverageCampaign floats sha256 campaign
            (some criterion) waivers).evaluation.status then
        []
      else
        [⟨"COV_EVALUATION_MISMATCH", "/evaluation",
          "Stored evaluation does not match the exact deterministic derivation."⟩] := by
    rcases hscored with hpass | hfail
    · simp only [validateEvaluation, hpass, hexpected, hstatus, hcollected, if_true,
        List.nil_append, Option.map_some]
    · simp only [validateEvaluation, hfail, hexpected, hstatus, hcollected, if_true,
        List.nil_append, Option.map_some]
  rw [hfindings, ite_eq_left_iff]
  simp

end Accepted

/-! ## The exact verdict -/

theorem rollupFindings_congr {document : CoverageCampaign}
    (hrollups : document.rollups = campaign.rollups) (hpoints : document.points = campaign.points)
    (hcollection : document.collection = campaign.collection) :
    rollupFindings floats document = rollupFindings floats campaign := by
  unfold rollupFindings
  rw [hrollups, hpoints, hcollection]

/-- What the reader finds of the evaluation: nothing when it is blocked, nor when it was scored
with written minima. -/
theorem validateEvaluation_evaluated (sha256 : CriterionPayload → String)
    (hcampaign : Coherent floats campaign) {criterion : CoverageCriterion}
    {waivers : ApprovedWaiverSet} (hwritten : criterion.Written floats) :
    validateEvaluation
      (evaluateCoverageCampaign floats sha256 campaign (some criterion) waivers) = [] := by
  by_cases h : Evaluable campaign waivers.waivers criterion
  · have hscored := evaluate_of_evaluable sha256 hcampaign h
    refine (validateEvaluation_eq_nil sha256 hcampaign h hwritten ?_ ?_ ?_ ?_).mpr ⟨?_, rfl⟩
    · rw [hscored]
      rfl
    · rw [hscored]
      rfl
    · rw [hscored]
      exact h.collected
    · rw [status_of_evaluable sha256 hcampaign h]
      split <;> simp
    · rw [hscored]
      rfl
  · unfold validateEvaluation
    rw [status_of_not_evaluable sha256 hcampaign h]

/-- The evaluation passes when nothing keeps the Campaign from being scored and every threshold
holds of its scored points, in exact arithmetic; it fails when only a threshold does not hold, and
is blocked otherwise. The reader accepts it for written minima, and no other scored evaluation of
the points and thresholds that were scored. -/
theorem coverage_verdict_exact (floats : Floats) (sha256 : CriterionPayload → String)
    {campaign : CoverageCampaign} (hcampaign : Coherent floats campaign)
    (criterion : CoverageCriterion) (waivers : ApprovedWaiverSet) :
    let evaluated := evaluateCoverageCampaign floats sha256 campaign (some criterion) waivers
    (evaluated.evaluation.status = .pass ↔ Evaluable campaign waivers.waivers criterion ∧
      ∀ item ∈ criterion.thresholds, item.Met campaign waivers.waivers) ∧
    (evaluated.evaluation.status = .fail ↔ Evaluable campaign waivers.waivers criterion ∧
      ¬ ∀ item ∈ criterion.thresholds, item.Met campaign waivers.waivers) ∧
    (evaluated.evaluation.status = .blocked ↔
      ¬ Evaluable campaign waivers.waivers criterion) ∧
    (criterion.Written floats → derivationFindings floats evaluated = [] ∧
      (evaluated.evaluation.status ≠ .blocked → ∀ stored : CoverageEvaluation,
        stored.status = .pass ∨ stored.status = .fail →
        stored.thresholds = evaluated.evaluation.thresholds →
        stored.status ≠ evaluated.evaluation.status ∨
          stored.metrics ≠ evaluated.evaluation.metrics →
        derivationFindings floats { evaluated with evaluation := stored } ≠ [])) := by
  refine ⟨status_pass_iff sha256 hcampaign, status_fail_iff sha256 hcampaign,
    status_blocked_iff sha256 hcampaign, fun hwritten => ⟨?_, ?_⟩⟩
  · have hrollups : rollupFindings floats
        (evaluateCoverageCampaign floats sha256 campaign (some criterion) waivers) = [] := by
      rw [rollupFindings_congr (evaluated_rollups sha256) (evaluated_points sha256)
        (evaluated_collection sha256)]
      exact rollups_applyWaivers hcampaign _
    rw [derivationFindings, hrollups, validateEvaluation_evaluated sha256 hcampaign hwritten,
      List.nil_append]
  · intro hscored stored hstored hthresholds hother hnone
    have h : Evaluable campaign waivers.waivers criterion := by
      by_contra hblocked
      exact hscored ((status_blocked_iff sha256 hcampaign).mpr hblocked)
    have hevaluated := evaluate_of_evaluable sha256 hcampaign h
    have hvalid := (List.append_eq_nil_iff.mp hnone).2
    have hrollups : (CoverageCampaign.rollups
        { evaluateCoverageCampaign floats sha256 campaign (some criterion) waivers with
          evaluation := stored }) = (waivedCampaign floats campaign waivers).rollups :=
      evaluated_rollups sha256
    have hkept : stored.thresholds = storedThresholds floats criterion := by
      rw [hthresholds, hevaluated]
      rfl
    obtain ⟨hmetrics, hstatus⟩ :=
      (validateEvaluation_eq_nil sha256 hcampaign h hwritten hrollups hkept
        ((evaluated_collection sha256).trans h.collected) hstored).mp hvalid
    rcases hother with hne | hne
    · exact hne hstatus
    · refine hne (hmetrics.trans ?_)
      rw [hevaluated]
      rfl

/-! ## A third of the points -/

/-- Floats near a third of a hundred; the other decimals are taken as they are. -/
def decimals : Floats where
  shortest number := if number = 100 / 3 then 33333333333333336 / 1000000000000000 else number
  rounded a b := if a = 100 ∧ b = 3 then 3333 / 100 else (a : Rat) / b
  reads_back number := by
    by_cases hthird : number = 100 / 3
    · rw [if_pos hthird, if_neg (by decide +kernel)]
    · rw [if_neg hthird, if_neg hthird]

def linePoint (id : String) (hits : List (String × Nat)) : CoveragePoint :=
  ⟨id, ⟨"line", some "rtl/counter.sv"⟩, hits, .eligible⟩

def linePoints : List CoveragePoint :=
  [linePoint "point-0" [("run:smoke", 1)], linePoint "point-1" [], linePoint "point-2" []]

def lineCampaign : CoverageCampaign where
  target := "acme:demo:counter:1.0#sim"
  capabilities := [⟨"line", .reported, some "supported", some "scored_v1"⟩]
  declaredTests := ["smoke"]
  selectedTests := ["smoke"]
  normalization := .complete
  points := linePoints
  rollups := calculateRollups decimals linePoints
  collection := .complete
  evaluation := ⟨.notRequested, none, none, .notEvaluated, [], [], []⟩

def lineCriterion (minima : List Rat) (tests : Option (List String)) : CoverageCriterion :=
  ⟨"acme:demo:counter:1.0#sim", minima.map fun minimum => ⟨.line, minimum⟩, tests⟩

def lineEvaluated (criterion : CoverageCriterion) : CoverageCampaign :=
  evaluateCoverageCampaign decimals (fun _ => "sha256:0") lineCampaign (some criterion)
    ⟨[], "sha256:empty", []⟩

theorem lineCampaign_coherent : Coherent decimals lineCampaign where
  derived := by decide +kernel
  normalized _ := .inl rfl

theorem lineCriterion_written {minimum : Rat} (h : minimum.den = 1) :
    (lineCriterion [minimum] none).Written decimals where
  some_metric := List.cons_ne_nil _ _
  once := List.nodup_singleton _
  authored := by
    intro item hitem
    rw [List.mem_singleton.mp hitem]
    exact .inl h

theorem coverage_verdict_exact_line :
    Evaluable lineCampaign [] (lineCriterion [25] none) ∧
      derivationFindings decimals (lineEvaluated (lineCriterion [25] none)) = [] := by
  have hexact := coverage_verdict_exact decimals (fun _ => "sha256:0") lineCampaign_coherent
    (lineCriterion [25] none) ⟨[], "sha256:empty", []⟩
  exact ⟨(hexact.1.mp (by decide +kernel)).1, (hexact.2.2.2 (lineCriterion_written rfl)).1⟩

/-- A minimum of a third of a hundred is met exactly, but not as the float it is stored as. With
no threshold, or with one metric twice, the reader derives other rows than were stored. What the
suite alone blocks, it still accepts as scored. -/
theorem coverage_reader_differs :
    Coherent decimals lineCampaign ∧
    ((lineEvaluated (lineCriterion [100 / 3] none)).evaluation.status = .pass ∧
      derivationFindings decimals (lineEvaluated (lineCriterion [100 / 3] none)) ≠ []) ∧
    ((lineEvaluated (lineCriterion [] none)).evaluation.status = .pass ∧
      derivationFindings decimals (lineEvaluated (lineCriterion [] none)) ≠ []) ∧
    ((lineEvaluated (lineCriterion [25, 25] none)).evaluation.status = .pass ∧
      derivationFindings decimals (lineEvaluated (lineCriterion [25, 25] none)) ≠ []) ∧
    ((lineEvaluated (lineCriterion [25] (some ["reset"]))).evaluation.status = .blocked ∧
      derivationFindings decimals
        { lineEvaluated (lineCriterion [25] (some ["reset"])) with
          evaluation := (lineEvaluated (lineCriterion [25] none)).evaluation } = []) := by
  refine ⟨lineCampaign_coherent, ?_, ?_, ?_, ?_⟩ <;> decide +kernel

end Booley.Coverage
