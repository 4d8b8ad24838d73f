import Booley.Simulation.GoalChanges
import Mathlib.Tactic.Ring

/-!
# Cycle Count verdicts

A Cycle Count Criterion is judged from one observation of the candidate and, when one of its
thresholds is relative, from the baseline observation that its facts bind to it. Facts before the
second version name Tests only, on both sides. The thresholds are evaluated once for the verdict
and once more when the Criterion is set. Exactly the right pair of counts is compared exactly when
the percentages come out exact and what one Criterion binds agrees.
-/
namespace Booley.Simulation

open Booley.Lib Booley.TestRuns Booley.Goals

/-! ## The observations of both sides -/

/-- The name of a Test Run and the fingerprint of its declared inputs. -/
structure BoundRun where
  name : String
  fingerprint : String
deriving DecidableEq, Repr

/-- What a candidate observed; facts before the second version name no Test Run. -/
structure CandidateObservation where
  observation : ResultObservation
  run : Option BoundRun

/-- A prerequisite of a campaign, with its `cycle_observation`. -/
structure BaselineObservation where
  role : String
  campaignId : String
  manifestOwner : String
  target : TargetDocument
  workItemId : Option String
  test : Option String
  run : Option BoundRun
  cycleCount : Nat

/-- What a Cycle Count Criterion of one candidate Target is judged from. -/
structure CycleFacts where
  selector : String
  identity : String
  prerequisites : List BaselineObservation
  refusals : Refusals

/-- Whether a baseline observation is of the Test Run the candidate observed. -/
def sameTestRun (cycle : BaselineObservation) (current : Option CandidateObservation) : Bool :=
  match cycle.run with
  | none => current.all (·.run.isNone)
  | some run => current.any (·.run == some run)

/-- Whether a Criterion compares the candidate with this baseline observation. -/
def bindsTo (params : CriterionParams) (current : Option CandidateObservation)
    (item : BaselineObservation) : Bool :=
  item.role == "cycle_count_baseline" && item.target.role == "cycle_count_baseline" &&
    namesBaselineTarget params item.target &&
    (params.baselineRef.isNone || item.target.revision == params.baselineRef) &&
    item.test == params.test && sameTestRun item current &&
    item.manifestOwner == item.campaignId && item.workItemId.isSome

def hasRelativeThreshold (params : CriterionParams) : Bool :=
  params.thresholds.any fun item => (describeThreshold item.1).relative

/-- What names a comparison that a baseline revision could not run. -/
def baselineRefusalKey (params : CriterionParams) (current : Option CandidateObservation) :
    String :=
  match current.bind (·.run) with
  | none => params.test.getD "None"
  | some run => run.name

/-! ## The verdict -/

section Judging

variable (floats : FloatArithmetic) (facts : CycleFacts) (params : CriterionParams)
  (current : Option CandidateObservation)

/-- The baseline observation a relative Cycle Count Criterion compares with. -/
def comparedBaseline : Option BaselineObservation × BaselineState :=
  if hasRelativeThreshold params then
    match facts.prerequisites.find? (bindsTo params current) with
    | some item => (some item, .observed)
    | none => (none, .mismatched)
  else (none, .notRequired)

/-- The two counts that the thresholds are evaluated on. -/
def comparedCycles : CycleEvidence where
  current := current.bind fun candidate => healthyCycles candidate.observation
  baseline := (comparedBaseline facts params current).1.map (·.cycleCount)

def cycleChecks : List (ThresholdParam × Bool) :=
  params.thresholds.map fun item =>
    (item.1, evaluateCycleThreshold floats item.1 item.2 (comparedCycles facts params current))

def cycleVerdict : Bool :=
  (comparedCycles facts params current).current.isSome &&
    (cycleChecks floats facts params current).all (·.2)

/-- Judge a Cycle Count Criterion from the candidate observation. -/
def judgeCycles (key : String) (rows : List EvidenceRow) : Option GoalChange :=
  if current.any fun candidate => unobservedInfrastructure candidate.observation then none
  else
    let state := (comparedBaseline facts params current).2
    let refusal := if state = .mismatched
      then facts.refusals facts.selector (baselineRefusalKey params current) else none
    some (setCriterion floats params key (cycleVerdict floats facts params current)
      { evidence := .cycle
          { selector := facts.selector
            identity := facts.identity
            test := params.test
            cycles := (comparedCycles facts params current).current
            baselineCycles := (comparedCycles facts params current).baseline
            baseline := if refusal.isSome then .inapplicable else state
            reason := refusal
            checks := cycleChecks floats facts params current }
        testRuns := rows
        outcomesOnly := false })

end Judging

/-! ## What the verdict should be -/

/-- An absolute threshold on a count. -/
def HoldsOn (current : Nat) : ThresholdParam → Rat → Prop
  | .cycleCountMax, threshold => (current : Rat) ≤ threshold
  | .cycleCountMin, threshold => threshold ≤ current
  | _, _ => False

/-- How much a count has increased or was reduced. -/
def changeOf (current baseline : Nat) : CycleChange → Rat
  | .increase => current - baseline
  | .reduce => baseline - current

/-- The change in percent of the baseline. -/
def percentOf (current baseline : Nat) (change : CycleChange) : Rat :=
  changeOf current baseline change / baseline * 100

def OnSide (threshold measured : Rat) : CycleSide → Prop
  | .atLeast => threshold ≤ measured
  | .atMost => measured ≤ threshold

/-- A relative threshold between two counts; nothing is a percentage of zero. -/
def HoldsBetween (current baseline : Nat) : ThresholdParam → Rat → Prop
  | .cycleCount change side .cycles, threshold =>
    OnSide threshold (changeOf current baseline change) side
  | .cycleCount change side .percent, threshold =>
    baseline ≠ 0 ∧ OnSide threshold (percentOf current baseline change) side
  | _, _ => False

/-- The candidate is healthy and every threshold holds, a relative one against a baseline
observation of the same Test Run that the Criterion binds. -/
def ExactlyMet (prerequisites : List BaselineObservation) (params : CriterionParams)
    (current : Option CandidateObservation) : Prop :=
  ∃ candidate cycles, current = some candidate ∧
    healthyCycles candidate.observation = some cycles ∧
    (∀ item ∈ params.thresholds, (describeThreshold item.1).relative = false →
      HoldsOn cycles item.1 item.2) ∧
    (hasRelativeThreshold params = true → ∃ base ∈ prerequisites,
      bindsTo params current base = true ∧
      ∀ item ∈ params.thresholds, (describeThreshold item.1).relative = true →
        HoldsBetween cycles base.cycleCount item.1 item.2)

/-- A Criterion is met exactly when it should be, whatever the order of the prerequisites is and
whatever there is besides those that it binds; and what is entered is what was judged. -/
structure ComparesExactly (floats : FloatArithmetic) (facts : CycleFacts)
    (current : Option CandidateObservation) : Prop where
  met : ∀ params key rows prerequisites,
    (prerequisites.filter (bindsTo params current)).Perm
      (facts.prerequisites.filter (bindsTo params current)) →
    ((∃ change, judgeCycles floats { facts with prerequisites } params current key rows =
        some change ∧ change.met = true) ↔ ExactlyMet facts.prerequisites params current)
  entered : ∀ params key rows change,
    judgeCycles floats facts params current key rows = some change →
      change.met = cycleVerdict floats facts params current

/-- The percentage of a baseline comes out as it is. -/
def PercentExact (floats : FloatArithmetic) (current baseline : Nat) : Prop :=
  baseline ≠ 0 → floats.cyclePercent ((current : Int) - baseline) baseline =
    .number (percentOf current baseline .increase)

/-- The evidence leaves no room for rounding and for the order of the prerequisites. -/
structure ExactEvidence (floats : FloatArithmetic) (prerequisites : List BaselineObservation)
    (current : Option CandidateObservation) (cycles : Nat) : Prop where
  percent : ∀ params, ∀ item ∈ prerequisites, bindsTo params current item = true →
    PercentExact floats cycles item.cycleCount
  agree : ∀ params, ∀ item ∈ prerequisites, ∀ other ∈ prerequisites,
    bindsTo params current item = true → bindsTo params current other = true →
    item.cycleCount = other.cycleCount

/-! ## One threshold -/

section Thresholds

variable {floats : FloatArithmetic} {current baseline : Nat} {param : ThresholdParam}
  {threshold : Rat}

theorem evaluate_absolute {other : Option Nat} (h : (describeThreshold param).relative = false) :
    evaluateCycleThreshold floats param threshold ⟨some current, other⟩ = true ↔
      HoldsOn current param threshold := by
  cases param with
  | metric clock metric flavour => simp [evaluateCycleThreshold, HoldsOn]
  | cycleCountMax =>
    simp [evaluateCycleThreshold, HoldsOn, thresholdPasses, describeThreshold, Measured.atMost]
  | cycleCountMin =>
    simp [evaluateCycleThreshold, HoldsOn, thresholdPasses, describeThreshold, Measured.atLeast]
  | cycleCount change side unit => cases unit <;> cases h

theorem evaluate_unbound (h : (describeThreshold param).relative = true) :
    evaluateCycleThreshold floats param threshold ⟨some current, none⟩ = false := by
  cases param with
  | metric clock metric flavour => rfl
  | cycleCountMax => cases h
  | cycleCountMin => cases h
  | cycleCount change side unit => rfl

/-- An increase as the change that a threshold bounds. -/
def signedChange : CycleChange → Rat → Rat
  | .increase, increase => increase
  | .reduce, increase => -increase

theorem signedChange_changeOf (change : CycleChange) (current baseline : Nat) :
    signedChange change (((current : Int) - baseline : Int) : Rat) =
      changeOf current baseline change := by
  cases change <;> simp [signedChange, changeOf]

theorem signedChange_percentOf (change : CycleChange) (current baseline : Nat) :
    signedChange change (percentOf current baseline .increase) =
      percentOf current baseline change := by
  cases change with
  | increase => rfl
  | reduce =>
    simp only [signedChange, percentOf, changeOf]
    ring

/-- A relative threshold bounds the measured change, negated where it bounds a reduction. -/
theorem passes_iff (change : CycleChange) (side : CycleSide) (unit : CycleUnit)
    (threshold increase : Rat) :
    thresholdPasses (.number increase)
        (if reduces (.cycleCount change side unit) then -threshold else threshold)
        (describeThreshold (.cycleCount change side unit)).operator = true ↔
      OnSide threshold (signedChange change increase) side := by
  have hoperator : (describeThreshold (.cycleCount change side unit)).operator =
      cycleOperator change side := by
    cases unit <;> rfl
  rw [hoperator]
  cases change with
  | increase =>
    cases side with
    | atLeast =>
      simp [thresholdPasses, reduces, cycleOperator, OnSide, Measured.atLeast, signedChange]
    | atMost =>
      simp [thresholdPasses, reduces, cycleOperator, OnSide, Measured.atMost, signedChange]
  | reduce =>
    cases side with
    | atLeast =>
      simp [thresholdPasses, reduces, cycleOperator, OnSide, Measured.atMost, signedChange, le_neg]
    | atMost =>
      simp [thresholdPasses, reduces, cycleOperator, OnSide, Measured.atLeast, signedChange,
        neg_le]

theorem evaluate_relative (h : (describeThreshold param).relative = true)
    (hpercent : PercentExact floats current baseline) :
    evaluateCycleThreshold floats param threshold ⟨some current, some baseline⟩ = true ↔
      HoldsBetween current baseline param threshold := by
  cases param with
  | metric clock metric flavour => simp [evaluateCycleThreshold, HoldsBetween]
  | cycleCountMax => cases h
  | cycleCountMin => cases h
  | cycleCount change side unit =>
    cases unit with
    | cycles =>
      have hpasses := passes_iff change side .cycles threshold
        (((current : Int) - baseline : Int) : Rat)
      rw [signedChange_changeOf] at hpasses
      exact hpasses
    | percent =>
      by_cases hzero : baseline = 0
      · simp [evaluateCycleThreshold, measuredCycles, HoldsBetween, hzero]
      · have hpasses := passes_iff change side .percent threshold
          (percentOf current baseline .increase)
        rw [signedChange_percentOf] at hpasses
        simp only [evaluateCycleThreshold, measuredCycles, hzero, if_false, Option.bind_some,
          hpercent hzero, HoldsBetween, ne_eq, not_false_eq_true, true_and]
        exact hpasses

end Thresholds

/-! ## The verdict on the bound pair -/

section Verdicts

variable {floats : FloatArithmetic} {facts : CycleFacts} {params : CriterionParams}
  {current : Option CandidateObservation}

/-- The verdict is every threshold on the two counts, if the candidate is healthy. -/
theorem cycleVerdict_iff : cycleVerdict floats facts params current = true ↔
    ∃ candidate cycles, current = some candidate ∧
      healthyCycles candidate.observation = some cycles ∧
      ∀ item ∈ params.thresholds, evaluateCycleThreshold floats item.1 item.2
        ⟨some cycles, (comparedBaseline facts params current).1.map (·.cycleCount)⟩ = true := by
  unfold cycleVerdict cycleChecks comparedCycles
  rw [Bool.and_eq_true, List.all_map, List.all_eq_true, Option.isSome_iff_exists]
  constructor
  · rintro ⟨⟨cycles, hcycles⟩, hchecks⟩
    dsimp only at hcycles
    obtain ⟨candidate, hcandidate, hhealthy⟩ := Option.bind_eq_some_iff.mp hcycles
    refine ⟨candidate, cycles, hcandidate, hhealthy, fun item hitem => ?_⟩
    have hcheck := hchecks item hitem
    dsimp only [Function.comp_apply] at hcheck
    rw [hcycles] at hcheck
    exact hcheck
  · rintro ⟨candidate, cycles, rfl, hhealthy, hchecks⟩
    refine ⟨⟨cycles, hhealthy⟩, fun item hitem => ?_⟩
    dsimp only [Function.comp_apply, Option.bind_some]
    rw [hhealthy]
    exact hchecks item hitem

/-- Setting the Criterion evaluates the same thresholds on the same counts again. -/
theorem met_judgeCycles {key : String} {rows : List EvidenceRow} {change : GoalChange}
    (h : judgeCycles floats facts params current key rows = some change) :
    change.met = cycleVerdict floats facts params current := by
  unfold judgeCycles at h
  split at h
  · cases h
  · cases Option.some.inj h
    have hchecks : (params.thresholds.all fun item => evaluateCycleThreshold floats item.1 item.2
        (comparedCycles facts params current)) =
          (cycleChecks floats facts params current).all (·.2) := by
      unfold cycleChecks
      rw [List.all_map]
      rfl
    change (cycleVerdict floats facts params current && params.thresholds.all fun item =>
      evaluateCycleThreshold floats item.1 item.2 (comparedCycles facts params current)) = _
    rw [hchecks]
    unfold cycleVerdict
    rw [Bool.and_assoc, Bool.and_self]

/-- A healthy candidate was not lost to infrastructure. -/
theorem judgeCycles_met_iff {key : String} {rows : List EvidenceRow} :
    (∃ change, judgeCycles floats facts params current key rows = some change ∧
      change.met = true) ↔ cycleVerdict floats facts params current = true := by
  constructor
  · rintro ⟨change, hchange, hmet⟩
    rw [← met_judgeCycles hchange]
    exact hmet
  · intro hverdict
    obtain ⟨candidate, cycles, rfl, hhealthy, -⟩ := cycleVerdict_iff.mp hverdict
    have hobserved : unobservedInfrastructure candidate.observation = false := by
      unfold healthyCycles at hhealthy
      split at hhealthy
      · next hcompleted =>
        unfold unobservedInfrastructure
        rw [hcompleted.2.1]
        exact Bool.and_false _
      · cases hhealthy
    have hjudged : ∃ change, judgeCycles floats facts params (some candidate) key rows =
        some change := by
      unfold judgeCycles
      rw [Option.any_some, hobserved, if_neg Bool.false_ne_true]
      exact ⟨_, rfl⟩
    obtain ⟨change, hchange⟩ := hjudged
    exact ⟨change, hchange, (met_judgeCycles hchange).trans hverdict⟩

theorem hasRelativeThreshold_iff : hasRelativeThreshold params = true ↔
    ∃ item ∈ params.thresholds, (describeThreshold item.1).relative = true := List.any_eq_true

/-- The compared baseline is one that binds, if one does. -/
theorem comparedBaseline_spec (hrelative : hasRelativeThreshold params = true) :
    (∃ item ∈ facts.prerequisites, bindsTo params current item = true ∧
      (comparedBaseline facts params current).1 = some item) ∨
    (∀ item ∈ facts.prerequisites, bindsTo params current item = false) ∧
      (comparedBaseline facts params current).1 = none := by
  unfold comparedBaseline
  rw [if_pos hrelative]
  cases hfind : facts.prerequisites.find? (bindsTo params current) with
  | some item =>
    exact .inl ⟨item, List.mem_of_find?_eq_some hfind, List.find?_some hfind, rfl⟩
  | none =>
    refine .inr ⟨fun item hitem => ?_, rfl⟩
    simpa using List.find?_eq_none.mp hfind item hitem

end Verdicts

/-! ## Exact evidence -/

section Exact

variable {floats : FloatArithmetic} {facts : CycleFacts}
  {current : Option CandidateObservation}

theorem mem_of_perm_binding {params : CriterionParams}
    {prerequisites others : List BaselineObservation}
    (h : (prerequisites.filter (bindsTo params current)).Perm
      (others.filter (bindsTo params current))) {item : BaselineObservation}
    (hbinds : bindsTo params current item = true) :
    item ∈ prerequisites ↔ item ∈ others := by
  have hmem := h.mem_iff (a := item)
  simpa only [List.mem_filter, hbinds, and_true] using hmem

/-- On exact evidence the verdict is right. -/
theorem cycleVerdict_exact {candidate : CandidateObservation} {cycles : Nat}
    (hhealthy : healthyCycles candidate.observation = some cycles)
    (hexact : ExactEvidence floats facts.prerequisites (some candidate) cycles)
    {params : CriterionParams} {prerequisites : List BaselineObservation}
    (hperm : (prerequisites.filter (bindsTo params (some candidate))).Perm
      (facts.prerequisites.filter (bindsTo params (some candidate)))) :
    cycleVerdict floats { facts with prerequisites } params (some candidate) = true ↔
      ExactlyMet facts.prerequisites params (some candidate) := by
  rw [cycleVerdict_iff]
  constructor
  · rintro ⟨other, count, hother, hcount, hchecks⟩
    cases hother
    cases hhealthy.symm.trans hcount
    refine ⟨candidate, cycles, rfl, hhealthy,
      fun item hitem habsolute => (evaluate_absolute habsolute).mp (hchecks item hitem), ?_⟩
    intro hrelative
    obtain ⟨witness, hwitness, hwitnessRelative⟩ := hasRelativeThreshold_iff.mp hrelative
    rcases @comparedBaseline_spec { facts with prerequisites } params (some candidate)
      hrelative with ⟨base, hbase, hbinds, hcompared⟩ | ⟨-, hcompared⟩
    · rw [hcompared] at hchecks
      have hmem := (mem_of_perm_binding hperm hbinds).mp hbase
      exact ⟨base, hmem, hbinds, fun item hitem hitemRelative =>
        (evaluate_relative hitemRelative (hexact.percent params base hmem hbinds)).mp
          (hchecks item hitem)⟩
    · have hcheck := hchecks witness hwitness
      rw [hcompared, Option.map_none, evaluate_unbound hwitnessRelative] at hcheck
      cases hcheck
  · rintro ⟨other, count, hother, hcount, habsolute, hrelative⟩
    cases hother
    cases hhealthy.symm.trans hcount
    refine ⟨candidate, cycles, rfl, hhealthy, fun item hitem => ?_⟩
    cases hitemRelative : (describeThreshold item.1).relative with
    | false => exact (evaluate_absolute hitemRelative).mpr (habsolute item hitem hitemRelative)
    | true =>
      have hparams := hasRelativeThreshold_iff.mpr ⟨item, hitem, hitemRelative⟩
      obtain ⟨base, hbase, hbinds, hholds⟩ := hrelative hparams
      rcases @comparedBaseline_spec { facts with prerequisites } params (some candidate)
        hparams with ⟨compared, hmem, hcomparedBinds, hcompared⟩ | ⟨hnone, -⟩
      · have hcomparedMem := (mem_of_perm_binding hperm hcomparedBinds).mp hmem
        have hcount := hexact.agree params base hbase compared hcomparedMem hbinds hcomparedBinds
        rw [hcompared, Option.map_some, ← hcount]
        exact (evaluate_relative hitemRelative (hexact.percent params base hbase hbinds)).mpr
          (hholds item hitem hitemRelative)
      · rw [hnone base ((mem_of_perm_binding hperm hbinds).mpr hbase)] at hbinds
        cases hbinds

theorem comparesExactly_of_exactEvidence
    (h : ∀ candidate cycles, current = some candidate →
      healthyCycles candidate.observation = some cycles →
      ExactEvidence floats facts.prerequisites current cycles) :
    ComparesExactly floats facts current := by
  refine ⟨fun params key rows prerequisites hperm => ?_, fun params key rows change =>
    met_judgeCycles⟩
  rw [judgeCycles_met_iff]
  cases hcycles : current.bind fun candidate => healthyCycles candidate.observation with
  | none =>
    constructor
    · intro hverdict
      obtain ⟨candidate, cycles, rfl, hhealthy, -⟩ := cycleVerdict_iff.mp hverdict
      cases hcycles.symm.trans hhealthy
    · rintro ⟨candidate, cycles, rfl, hhealthy, -⟩
      cases hcycles.symm.trans hhealthy
  | some cycles =>
    obtain ⟨candidate, rfl, hhealthy⟩ := Option.bind_eq_some_iff.mp hcycles
    exact cycleVerdict_exact hhealthy (h candidate cycles rfl hhealthy) hperm

/-! ## Evidence that is compared exactly -/

/-- A value on each side of which lies what lies on that side of a number is this number. -/
theorem eq_number_of_sides {measured : Measured} {value : Rat}
    (hatMost : ∀ bound, measured.atMost bound = true ↔ value ≤ bound)
    (hatLeast : ∀ bound, measured.atLeast bound = true ↔ bound ≤ value) :
    measured = .number value := by
  cases measured with
  | number own =>
    have hle : value ≤ own := (hatMost own).mp (by simp [Measured.atMost])
    have hge : own ≤ value := (hatLeast own).mp (by simp [Measured.atLeast])
    rw [le_antisymm hle hge]
  | infinite negative =>
    cases negative with
    | true =>
      have hle := (hatMost (value - 1)).mp rfl
      linarith
    | false =>
      have hge := (hatLeast (value + 1)).mp rfl
      linarith
  | undefined =>
    cases (hatMost value).mpr le_rfl

section Probes

variable {candidate : CandidateObservation} {cycles : Nat} {params : CriterionParams}
  {item : BaselineObservation}

/-- What a Criterion with one relative threshold says when the prerequisite comes first. -/
theorem evaluate_probe (h : ComparesExactly floats facts (some candidate))
    (hhealthy : healthyCycles candidate.observation = some cycles)
    (hitem : item ∈ facts.prerequisites) (hbinds : bindsTo params (some candidate) item = true)
    (change : CycleChange) (side : CycleSide) (unit : CycleUnit) (threshold : Rat) :
    evaluateCycleThreshold floats (.cycleCount change side unit) threshold
        ⟨some cycles, some item.cycleCount⟩ = true ↔
      ∃ base ∈ facts.prerequisites, bindsTo params (some candidate) base = true ∧
        HoldsBetween cycles base.cycleCount (.cycleCount change side unit) threshold := by
  obtain ⟨before, behind, hsplit⟩ := List.append_of_mem hitem
  have hperm : (item :: (before ++ behind)).Perm facts.prerequisites := by
    rw [hsplit]
    exact List.perm_middle.symm
  have hrelative : (describeThreshold (.cycleCount change side unit)).relative = true := by
    cases unit <;> rfl
  let probe : CriterionParams :=
    { params with thresholds := [(.cycleCount change side unit, threshold)] }
  have hprobe : bindsTo probe (some candidate) item = true := hbinds
  have hparams : hasRelativeThreshold probe = true :=
    hasRelativeThreshold_iff.mpr ⟨_, List.mem_cons_self, hrelative⟩
  have hmet := h.met probe "" [] (item :: (before ++ behind)) (hperm.filter _)
  rw [judgeCycles_met_iff, cycleVerdict_iff] at hmet
  have hcompared : (comparedBaseline { facts with prerequisites := item :: (before ++ behind) }
      probe (some candidate)).1 = some item := by
    unfold comparedBaseline
    rw [if_pos hparams, List.find?_cons_of_pos hprobe]
  rw [hcompared] at hmet
  constructor
  · intro hevaluate
    obtain ⟨other, count, hother, hcount, -, hbase⟩ := hmet.mp ⟨candidate, cycles, rfl, hhealthy,
      List.forall_mem_singleton.mpr hevaluate⟩
    cases hother
    cases hhealthy.symm.trans hcount
    obtain ⟨base, hmem, hbaseBinds, hholds⟩ := hbase hparams
    exact ⟨base, hmem, hbaseBinds, hholds _ List.mem_cons_self hrelative⟩
  · rintro ⟨base, hmem, hbaseBinds, hholds⟩
    obtain ⟨other, count, hother, hcount, hchecks⟩ := hmet.mpr ⟨candidate, cycles, rfl, hhealthy,
      List.forall_mem_singleton.mpr fun habsolute => absurd habsolute (by rw [hrelative]; simp),
      fun _ => ⟨base, hmem, hbaseBinds, List.forall_mem_singleton.mpr fun _ => hholds⟩⟩
    cases hother
    cases hhealthy.symm.trans hcount
    exact hchecks _ List.mem_cons_self

theorem cycleCount_le (h : ComparesExactly floats facts (some candidate))
    (hhealthy : healthyCycles candidate.observation = some cycles)
    (hitem : item ∈ facts.prerequisites) (hbinds : bindsTo params (some candidate) item = true)
    {other : BaselineObservation} (hother : other ∈ facts.prerequisites)
    (hotherBinds : bindsTo params (some candidate) other = true) :
    other.cycleCount ≤ item.cycleCount := by
  have hevaluate := (evaluate_probe h hhealthy hitem hbinds .increase .atMost .cycles
    (changeOf cycles other.cycleCount .increase)).mpr ⟨other, hother, hotherBinds, le_refl _⟩
  have hside := (passes_iff .increase .atMost .cycles (changeOf cycles other.cycleCount .increase)
    (((cycles : Int) - item.cycleCount : Int) : Rat)).mp hevaluate
  rw [signedChange_changeOf] at hside
  simp only [OnSide, changeOf] at hside
  have hle : (other.cycleCount : Rat) ≤ item.cycleCount := by linarith
  exact_mod_cast hle

theorem agree_of_comparesExactly (h : ComparesExactly floats facts (some candidate))
    (hhealthy : healthyCycles candidate.observation = some cycles)
    (hitem : item ∈ facts.prerequisites) (hbinds : bindsTo params (some candidate) item = true)
    {other : BaselineObservation} (hother : other ∈ facts.prerequisites)
    (hotherBinds : bindsTo params (some candidate) other = true) :
    item.cycleCount = other.cycleCount :=
  Nat.le_antisymm (cycleCount_le h hhealthy hother hotherBinds hitem hbinds)
    (cycleCount_le h hhealthy hitem hbinds hother hotherBinds)

theorem percentExact_of_comparesExactly (h : ComparesExactly floats facts (some candidate))
    (hhealthy : healthyCycles candidate.observation = some cycles)
    (hitem : item ∈ facts.prerequisites)
    (hbinds : bindsTo params (some candidate) item = true) :
    PercentExact floats cycles item.cycleCount := by
  intro hzero
  have hside : ∀ side bound,
      evaluateCycleThreshold floats (.cycleCount .increase side .percent) bound
          ⟨some cycles, some item.cycleCount⟩ = true ↔
        OnSide bound (percentOf cycles item.cycleCount .increase) side := by
    intro side bound
    rw [evaluate_probe h hhealthy hitem hbinds]
    constructor
    · rintro ⟨base, hbase, hbaseBinds, -, hholds⟩
      rw [agree_of_comparesExactly h hhealthy hitem hbinds hbase hbaseBinds]
      exact hholds
    · intro hholds
      exact ⟨item, hitem, hbinds, hzero, hholds⟩
  have hevaluate : ∀ side bound,
      evaluateCycleThreshold floats (.cycleCount .increase side .percent) bound
          ⟨some cycles, some item.cycleCount⟩ =
        thresholdPasses (floats.cyclePercent ((cycles : Int) - item.cycleCount) item.cycleCount)
          bound (cycleOperator .increase side) := by
    intro side bound
    simp only [evaluateCycleThreshold, measuredCycles, hzero, if_false, Option.bind_some, reduces,
      describeThreshold]
    rfl
  refine eq_number_of_sides (fun bound => ?_) fun bound => ?_
  · have hbound := hside .atMost bound
    rw [hevaluate] at hbound
    exact hbound
  · have hbound := hside .atLeast bound
    rw [hevaluate] at hbound
    exact hbound

end Probes

end Exact

/-- A campaign's Cycle Count verdicts compare exactly, for all Criteria and all orders of the
prerequisites, if and only if the evidence of a healthy candidate is exact: the percentages of the
baselines that a Criterion binds are computed as they are, and two baselines that one Criterion
binds have one count. -/
theorem compares_exactly_iff (floats : FloatArithmetic) (facts : CycleFacts)
    (current : Option CandidateObservation) :
    ComparesExactly floats facts current ↔
      ∀ candidate cycles, current = some candidate →
        healthyCycles candidate.observation = some cycles →
        ExactEvidence floats facts.prerequisites current cycles := by
  constructor
  · rintro h candidate cycles rfl hhealthy
    exact
      { percent := fun params item hitem hbinds =>
          percentExact_of_comparesExactly h hhealthy hitem hbinds
        agree := fun params item hitem other hother hbinds hotherBinds =>
          agree_of_comparesExactly h hhealthy hitem hbinds hother hotherBinds }
  · exact comparesExactly_of_exactEvidence

/-! ## Percentages in doubles -/

def powerOfTwo : Int → Rat
  | .ofNat n => (Nat.pow 2 n : Nat)
  | .negSucc n => 1 / (Nat.pow 2 (n + 1) : Nat)

/-- The greatest power of two that is at most a positive number. -/
def floorLog2 (size : Rat) : Int :=
  let exponent : Int := Nat.log2 size.num.natAbs - Nat.log2 size.den
  if size < powerOfTwo exponent then exponent - 1 else exponent

def roundHalfEven (value : Rat) : Int :=
  let rest := value - value.floor
  if rest < 1 / 2 then value.floor
  else if 1 / 2 < rest then value.floor + 1
  else if value.floor % 2 = 0 then value.floor
  else value.floor + 1

/-- The double next to a number: 53 bits, ties to even, no exponent below -1074. -/
def nearestDouble (value : Rat) : Measured :=
  if value = 0 then .number 0
  else
    let size := if value < 0 then -value else value
    let unit := powerOfTwo (max (floorLog2 size - 52) (-1074))
    let rounded := roundHalfEven (size / unit) * unit
    if powerOfTwo 1024 ≤ rounded then .infinite (value < 0)
    else .number (if value < 0 then -rounded else rounded)

/-- `delta_cycles / baseline_count * 100` in doubles. -/
def doublePercent (delta : Int) (baseline : Nat) : Measured :=
  match nearestDouble (delta / baseline) with
  | .number quotient => nearestDouble (quotient * 100)
  | other => other

/-- Doubles as far as a Cycle Count needs them. -/
def doubleFloats : FloatArithmetic where
  percent _ _ _ := .undefined
  cyclePercent := doublePercent
  ofText _ := none

def cycleTarget (role : String) : TargetDocument where
  vlnv := "acme:ip:core:1.0"
  name := "sim"
  selector := "sim"
  projectIdentity := ""
  revision := none
  role := role
  displayName := "sim"

/-- A baseline of 100 cycles. -/
def hundredCycles : CycleFacts where
  selector := "sim"
  identity := (cycleTarget "candidate").identity
  prerequisites := [
    { role := "cycle_count_baseline"
      campaignId := "c"
      manifestOwner := "c"
      target := cycleTarget "cycle_count_baseline"
      workItemId := some "w"
      test := some "smoke"
      run := some ⟨"smoke", "f"⟩
      cycleCount := 100 }]
  refusals := fun _ _ => none

def grownCandidate : CandidateObservation where
  observation := ⟨some "smoke", .completed, none, .pass, .clean, some 107⟩
  run := some ⟨"smoke", "f"⟩

/-- At most seven percent more. -/
def sevenPercent : CriterionParams where
  target := some "sim"
  targetSelector := none
  test := some "smoke"
  thresholds := [(.cycleCount .increase .atMost .percent, 7)]
  baselineTarget := none
  baselineRef := none
  metrics := []

/-- 107 cycles are seven percent more than 100, but in doubles they are more than that. -/
theorem seven_percent_refused :
    cycleVerdict doubleFloats hundredCycles sevenPercent (some grownCandidate) = false ∧
    ExactlyMet hundredCycles.prerequisites sevenPercent (some grownCandidate) ∧
    ¬ ComparesExactly doubleFloats hundredCycles (some grownCandidate) := by
  have hverdict : cycleVerdict doubleFloats hundredCycles sevenPercent (some grownCandidate) =
      false := by decide +kernel
  have hmet : ExactlyMet hundredCycles.prerequisites sevenPercent (some grownCandidate) := by
    refine ⟨grownCandidate, 107, rfl, rfl, ?_, fun _ => ?_⟩
    · exact List.forall_mem_singleton.mpr fun habsolute => by cases habsolute
    · refine ⟨_, List.mem_cons_self, by decide +kernel, ?_⟩
      exact List.forall_mem_singleton.mpr fun _ => ⟨by decide,
        show percentOf 107 100 .increase ≤ 7 by decide +kernel⟩
  refine ⟨hverdict, hmet, fun hexact => ?_⟩
  have hjudged := (hexact.met sevenPercent "cycle_count_sim" [] hundredCycles.prerequisites
    (List.Perm.refl _)).mpr hmet
  rw [judgeCycles_met_iff] at hjudged
  exact Bool.false_ne_true (hverdict.symm.trans hjudged)

/-! ## The campaign path -/

/-- A fact of the second version as the verdict reads it. -/
def ObservationFact.candidate (fact : ObservationFact) : CandidateObservation where
  observation := fact.observation
  run := some ⟨fact.testRun, fact.testRunFingerprint⟩

def PrerequisiteFact.baseline (fact : PrerequisiteFact) : BaselineObservation where
  role := fact.role
  campaignId := fact.campaignId
  manifestOwner := fact.manifestOwner
  target := fact.target
  workItemId := fact.workItemId
  test := fact.test
  run := some ⟨fact.testRun, fact.testRunFingerprint⟩
  cycleCount := fact.cycleCount

section Campaign

variable [Digests] (outcome : CampaignOutcome) (refusals : Refusals)

def cycleFacts : CycleFacts where
  selector := outcome.manifest.target.selector
  identity := outcome.manifest.target.identity
  prerequisites := outcome.prerequisites.map PrerequisiteFact.baseline
  refusals := refusals

variable (params : CriterionParams) (current : ObservationFact)

theorem comparedBaseline_cycleFacts :
    comparedBaseline (cycleFacts outcome refusals) params (some current.candidate) =
      ((boundBaseline outcome params current).1.map PrerequisiteFact.baseline,
        (boundBaseline outcome params current).2) := by
  unfold comparedBaseline boundBaseline
  cases hrelative : hasRelativeThreshold params with
  | false =>
    have hall : (params.thresholds.all fun item =>
        !(describeThreshold item.1).relative) = true := by
      rw [← List.not_any_eq_all_not, Bool.not_eq_true']
      exact hrelative
    rw [if_pos hall, if_neg Bool.false_ne_true]
    rfl
  | true =>
    have hall : ¬ (params.thresholds.all fun item =>
        !(describeThreshold item.1).relative) = true := by
      rw [← List.not_any_eq_all_not, Bool.not_eq_true', Bool.not_eq_false]
      exact hrelative
    have hbinds : ∀ item : PrerequisiteFact,
        bindsTo params (some current.candidate) item.baseline =
          (item.role == "cycle_count_baseline" && item.target.role == "cycle_count_baseline" &&
          namesBaselineTarget params item.target &&
          (params.baselineRef.isNone || item.target.revision == params.baselineRef) &&
          item.test == params.test && item.testRun == current.testRun &&
          item.testRunFingerprint == current.testRunFingerprint &&
          item.manifestOwner == item.campaignId && item.workItemId.isSome) := by
      intro item
      have hrun : sameTestRun item.baseline (some current.candidate) =
          (item.testRun == current.testRun &&
            item.testRunFingerprint == current.testRunFingerprint) := by
        rw [Bool.eq_iff_iff]
        simp only [sameTestRun, PrerequisiteFact.baseline, ObservationFact.candidate,
          Option.any_some, beq_iff_eq, Option.some.injEq, BoundRun.mk.injEq, Bool.and_eq_true]
        exact and_congr eq_comm eq_comm
      unfold bindsTo
      rw [hrun]
      simp only [PrerequisiteFact.baseline, Bool.and_assoc]
    rw [if_neg hall, if_pos rfl]
    simp only [cycleFacts, List.find?_map]
    rw [show (bindsTo params (some current.candidate) ∘ PrerequisiteFact.baseline) = _ from
      funext hbinds]
    cases outcome.prerequisites.find? _ with
    | none => rfl
    | some item => rfl

/-- The verdict of a Goal's Cycle Count is the one that is judged here. -/
theorem cycleChange_eq (floats : FloatArithmetic) (key : String) (rows : List EvidenceRow) :
    cycleChange floats outcome refusals params key current rows =
      judgeCycles floats (cycleFacts outcome refusals) params (some current.candidate) key
        (rowsOf rows [current]) := by
  have hcycles : comparedCycles (cycleFacts outcome refusals) params (some current.candidate) =
      ⟨healthyCycles current.observation,
        (boundBaseline outcome params current).1.map (·.cycleCount)⟩ := by
    unfold comparedCycles
    rw [comparedBaseline_cycleFacts, Option.map_map]
    rfl
  unfold cycleChange judgeCycles cycleVerdict cycleChecks
  rw [hcycles, comparedBaseline_cycleFacts]
  rfl

end Campaign

end Booley.Simulation
