import Booley.Goals.MergedBounds

/-!
# What a merged Goal requires

The requirement of a merged Goal as a relation to its members: the settings all of them
share, and for each bound a strictest one of theirs. `merge` establishes it, it reads the
members as a set, and it determines the merged Goal up to key and spelling. A merge that
succeeds in one order succeeds in every order.
-/
namespace Booley.Goals

open Booley.Lib Booley.TestRuns

variable {floats : FloatArithmetic} {names : Option Checkout}

/-! ## The requirement -/

/-- The identity of a Target, however it is written. -/
def identityOf (names : Option Checkout) (target : String) : String :=
  match names with
  | some checkout => checkout.identity target
  | none => target

/-- Whether two written Targets are one for a family: by identity for the families judged by
Test Runs, by name for the others. -/
def SameTarget (names : Option Checkout) (family : GoalFamily) (target other : String) : Prop :=
  if family ∈ testRunFamilies then identityOf names target = identityOf names other
  else target = other

namespace TranslatedGoal

/-- The Target of a Goal that has one. -/
def targetName (goal : TranslatedGoal) : String := goal.target.getD ""

def thresholds (goal : TranslatedGoal) : Option (Dict ThresholdParam Rat) :=
  match goal.params with
  | .implementation thresholds _ => some thresholds
  | .cycleCount _ _ thresholds => some thresholds
  | _ => none

def floors (goal : TranslatedGoal) : Option (Dict CoverageMetric Rat) :=
  match goal.params with
  | .coverage _ metrics _ => some metrics
  | _ => none

end TranslatedGoal

/-- Two selectors on their Targets name the same Test Runs, up to a seed count. -/
def SameTest (names : Option Checkout) (target other : String) (test test' : WrittenSelector) :
    Prop :=
  canonicalIdentity names target test.selector = canonicalIdentity names other test'.selector

def selectorCount (test : WrittenSelector) : Nat := countOf test.selector.seedForm

/-- What the parameters of a merged Goal are to those of its members. -/
def MergedParams (names : Option Checkout) (members : List TranslatedGoal)
    (goal : TranslatedGoal) : Prop :=
  match goal.params with
  | .wholeTarget => ∀ member ∈ members, member.params = .wholeTarget ∧
      SameTarget names goal.family member.targetName goal.targetName
  | .test test =>
      (∀ member ∈ members, ∃ test', member.params = .test test' ∧
        SameTest names member.targetName goal.targetName test' test ∧
        selectorCount test' ≤ selectorCount test) ∧
      ∃ member ∈ members, ∃ test', member.params = .test test' ∧
        selectorCount test' = selectorCount test
  | .implementation thresholds baseline =>
      (∀ member ∈ members, member.targetName = goal.targetName ∧
        ∃ others baseline', member.params = .implementation others baseline' ∧
          (hasRelativeQorThreshold others = true →
            baseline'.getD goal.targetName = baseline.getD goal.targetName)) ∧
      StrictestOf strictness (members.filterMap TranslatedGoal.thresholds) thresholds ∧
      (hasRelativeQorThreshold thresholds = false → baseline = none) ∧
      baseline ≠ some goal.targetName
  | .cycleCount target test thresholds =>
      (∀ member ∈ members, ∃ target' test' others,
        member.params = .cycleCount target' test' others ∧
        SameTest names target' target test' test) ∧
      StrictestOf strictness (members.filterMap TranslatedGoal.thresholds) thresholds
  | .coverage target metrics tests =>
      (∀ member ∈ members, ∃ target' others tests',
        member.params = .coverage target' others tests' ∧
        identityOf names target' = identityOf names target ∧
        coverageTestsKey names target' tests' = coverageTestsKey names target tests) ∧
      StrictestOf (fun _ value => value) (members.filterMap TranslatedGoal.floors) metrics
  | .mutation params =>
      (∀ member ∈ members, member.targetName = goal.targetName ∧ ∃ others,
        member.params = .mutation others ∧ others.scope = params.scope ∧
        others.total = params.total ∧ others.auto = params.auto ∧
        ∀ floor, others.minDetected = some floor →
          ∃ largest, params.minDetected = some largest ∧ floor ≤ largest) ∧
      ∀ largest, params.minDetected = some largest →
        ∃ member ∈ members, ∃ others, member.params = .mutation others ∧
          others.minDetected = some largest
  | .review review verdict spec target paths =>
      (∀ member ∈ members, ∃ verdict', member.params = .review review verdict' spec target paths ∧
        (verdict' = .clean → verdict = .clean)) ∧
      ∃ member ∈ members, member.params = .review review verdict spec target paths

/-- The merged Goal of some Goals: one family, and the merged parameters. -/
structure MergedOf (names : Option Checkout) (members : List TranslatedGoal)
    (goal : TranslatedGoal) : Prop where
  family : ∀ member ∈ members, member.family = goal.family
  params : MergedParams names members goal

/-- Two Goals require the same, whatever their keys and the spelling of what they name. -/
def SameRequirement (names : Option Checkout) (goal other : TranslatedGoal) : Prop :=
  goal.family = other.family ∧
  match goal.params, other.params with
  | .wholeTarget, .wholeTarget =>
      SameTarget names goal.family goal.targetName other.targetName
  | .test test, .test test' =>
      SameTest names goal.targetName other.targetName test test' ∧
        selectorCount test = selectorCount test'
  | .implementation thresholds baseline, .implementation others baseline' =>
      goal.targetName = other.targetName ∧ baseline = baseline' ∧
        ∀ param, thresholds.lookup param = others.lookup param
  | .cycleCount target test thresholds, .cycleCount target' test' others =>
      SameTest names target target' test test' ∧
        ∀ param, thresholds.lookup param = others.lookup param
  | .coverage target metrics tests, .coverage target' others tests' =>
      identityOf names target = identityOf names target' ∧
        coverageTestsKey names target tests = coverageTestsKey names target' tests' ∧
        ∀ metric, metrics.lookup metric = others.lookup metric
  | .mutation params, .mutation others =>
      goal.targetName = other.targetName ∧ params = others
  | .review review verdict spec target paths, .review review' verdict' spec' target' paths' =>
      review = review' ∧ verdict = verdict' ∧ spec = spec' ∧ target = target' ∧ paths = paths'
  | _, _ => False

/-! ## The requirement is determined -/

theorem SameTarget.symm {family : GoalFamily} {target other : String}
    (h : SameTarget names family target other) : SameTarget names family other target := by
  unfold SameTarget at h ⊢
  split_ifs at h ⊢ <;> exact h.symm

theorem SameTarget.trans {family : GoalFamily} {target other third : String}
    (h : SameTarget names family target other) (h' : SameTarget names family other third) :
    SameTarget names family target third := by
  unfold SameTarget at h h' ⊢
  split_ifs at h h' ⊢ <;> exact h.trans h'

theorem hasRelativeQorThreshold_iff {ν : Type} {params : Dict ThresholdParam ν} :
    hasRelativeQorThreshold params = true ↔
      ∃ param, isRelativeQor param = true ∧ (params.lookup param).isSome := by
  simp only [hasRelativeQorThreshold, List.any_eq_true]
  constructor
  · rintro ⟨param, hmem, hrelative⟩
    exact ⟨param, hrelative, AList.lookup_isSome.mpr (AList.mem_keys.mpr hmem)⟩
  · rintro ⟨param, hrelative, hmem⟩
    exact ⟨param, AList.mem_keys.mp (AList.lookup_isSome.mp hmem), hrelative⟩

theorem hasRelativeQorThreshold_congr {ν μ : Type} {params : Dict ThresholdParam ν}
    {others : Dict ThresholdParam μ}
    (h : ∀ param, (params.lookup param).isSome = (others.lookup param).isSome) :
    hasRelativeQorThreshold params = hasRelativeQorThreshold others := by
  rw [Bool.eq_iff_iff, hasRelativeQorThreshold_iff, hasRelativeQorThreshold_iff]
  simp [h]

/-- A merged threshold reads a baseline when and only when one of a member does. -/
theorem StrictestOf.hasRelative_iff {given : List (Dict ThresholdParam Rat)}
    {chosen : Dict ThresholdParam Rat} (h : StrictestOf strictness given chosen) :
    hasRelativeQorThreshold chosen = true ↔
      ∃ values ∈ given, hasRelativeQorThreshold values = true := by
  simp only [hasRelativeQorThreshold_iff, Option.isSome_iff_exists]
  constructor
  · rintro ⟨param, hrelative, value, hvalue⟩
    obtain ⟨values, hmem, hgiven⟩ := h.exists_given hvalue
    exact ⟨values, hmem, param, hrelative, value, hgiven⟩
  · rintro ⟨values, hmem, param, hrelative, value, hvalue⟩
    obtain ⟨strict, hstrict, -⟩ := h.exists_of_lookup hmem hvalue
    exact ⟨param, hrelative, strict, hstrict⟩

/-- The shape of parameters, without their values. -/
inductive ParamsShape where
  | wholeTarget | test | implementation | cycleCount | coverage | mutation | review
deriving DecidableEq

def GoalParams.shape : GoalParams → ParamsShape
  | .wholeTarget => .wholeTarget
  | .test _ => .test
  | .implementation _ _ => .implementation
  | .cycleCount _ _ _ => .cycleCount
  | .coverage _ _ _ => .coverage
  | .mutation _ => .mutation
  | .review _ _ _ _ _ => .review

/-- A merged Goal has the shape of its members. -/
theorem MergedOf.shape {members : List TranslatedGoal} {goal member : TranslatedGoal}
    (h : MergedOf names members goal) (hmem : member ∈ members) :
    member.params.shape = goal.params.shape := by
  have hparams := h.params
  unfold MergedParams at hparams
  cases hgoal : goal.params with
  | wholeTarget =>
    simp only [hgoal] at hparams
    simp [(hparams member hmem).1, GoalParams.shape]
  | test test =>
    simp only [hgoal] at hparams
    obtain ⟨_, hshape, -⟩ := hparams.1 member hmem
    simp [hshape, GoalParams.shape]
  | implementation thresholds baseline =>
    simp only [hgoal] at hparams
    obtain ⟨-, _, _, hshape, -⟩ := hparams.1 member hmem
    simp [hshape, GoalParams.shape]
  | cycleCount target test thresholds =>
    simp only [hgoal] at hparams
    obtain ⟨_, _, _, hshape, -⟩ := hparams.1 member hmem
    simp [hshape, GoalParams.shape]
  | coverage target metrics tests =>
    simp only [hgoal] at hparams
    obtain ⟨_, _, _, hshape, -⟩ := hparams.1 member hmem
    simp [hshape, GoalParams.shape]
  | mutation params =>
    simp only [hgoal] at hparams
    obtain ⟨-, _, hshape, -⟩ := hparams.1 member hmem
    simp [hshape, GoalParams.shape]
  | review review verdict spec target paths =>
    simp only [hgoal] at hparams
    obtain ⟨_, hshape, -⟩ := hparams.1 member hmem
    simp [hshape, GoalParams.shape]

/-- The members determine the merged Goal up to key and spelling. -/
theorem MergedOf.sameRequirement {members members' : List TranslatedGoal}
    {goal goal' : TranslatedGoal} (hmem : ∀ member, member ∈ members ↔ member ∈ members')
    (hne : members ≠ []) (h : MergedOf names members goal) (h' : MergedOf names members' goal') :
    SameRequirement names goal goal' := by
  obtain ⟨first, hfirst⟩ := List.exists_mem_of_ne_nil members hne
  have hfirst' := (hmem first).mp hfirst
  have hfamily : goal.family = goal'.family :=
    (h.family first hfirst).symm.trans (h'.family first hfirst')
  have hshape : goal.params.shape = goal'.params.shape :=
    (h.shape hfirst).symm.trans (h'.shape hfirst')
  have hfilter : ∀ {σ : Type} (f : TranslatedGoal → Option σ) (values : σ),
      values ∈ members'.filterMap f ↔ values ∈ members.filterMap f := by
    intro σ f values
    simp [List.mem_filterMap, hmem]
  have hparams := h.params
  have hparams' := h'.params
  refine ⟨hfamily, ?_⟩
  unfold MergedParams at hparams hparams'
  cases hgoal : goal.params <;> cases hgoal' : goal'.params <;>
    simp only [hgoal, hgoal', GoalParams.shape, reduceCtorEq] at hshape hparams hparams' ⊢
  case wholeTarget.wholeTarget =>
    have hsame' := (hparams' first hfirst').2
    rw [← hfamily] at hsame'
    exact (hparams first hfirst).2.symm.trans hsame'
  case test.test test test' =>
    obtain ⟨hall, large, hlarge, written, hwritten, hcount⟩ := hparams
    obtain ⟨hall', large', hlarge', written', hwritten', hcount'⟩ := hparams'
    obtain ⟨_, hone, hsame, -⟩ := hall first hfirst
    obtain ⟨_, hone', hsame', -⟩ := hall' first hfirst'
    obtain rfl := GoalParams.test.inj (hone.symm.trans hone')
    refine ⟨hsame.symm.trans hsame', le_antisymm ?_ ?_⟩
    · obtain ⟨_, htwo, -, hle⟩ := hall' large ((hmem large).mp hlarge)
      obtain rfl := GoalParams.test.inj (hwritten.symm.trans htwo)
      omega
    · obtain ⟨_, htwo, -, hle⟩ := hall large' ((hmem large').mpr hlarge')
      obtain rfl := GoalParams.test.inj (hwritten'.symm.trans htwo)
      omega
  case implementation.implementation thresholds baseline others baseline' =>
    obtain ⟨hall, hstrict, hnone, hother⟩ := hparams
    obtain ⟨hall', hstrict', hnone', hother'⟩ := hparams'
    have htarget : goal.targetName = goal'.targetName :=
      (hall first hfirst).1.symm.trans (hall' first hfirst').1
    have hlookup : ∀ param, thresholds.lookup param = others.lookup param :=
      hstrict.lookup_eq (fun param _ _ => strictness_injective param)
        (hstrict'.of_mem_iff (hfilter TranslatedGoal.thresholds))
    have hrelative : hasRelativeQorThreshold thresholds = hasRelativeQorThreshold others :=
      hasRelativeQorThreshold_congr fun param => by rw [hlookup]
    refine ⟨htarget, ?_, hlookup⟩
    by_cases hreads : hasRelativeQorThreshold thresholds = true
    · obtain ⟨values, hvalues, hmember⟩ := hstrict.hasRelative_iff.mp hreads
      obtain ⟨member, hmember', hthresholds⟩ := List.mem_filterMap.mp hvalues
      obtain ⟨-, given, base, hshaped, hbase⟩ := hall member hmember'
      obtain ⟨-, given', base', hshaped', hbase'⟩ := hall' member ((hmem member).mp hmember')
      obtain ⟨rfl, rfl⟩ := GoalParams.implementation.inj (hshaped.symm.trans hshaped')
      obtain rfl : given = values := by
        simpa [TranslatedGoal.thresholds, hshaped] using hthresholds
      have hgetD := (hbase hmember).symm.trans (htarget ▸ hbase' hmember)
      rw [← htarget] at hother'
      cases baseline with
      | none =>
        cases baseline' with
        | none => rfl
        | some other => exact absurd (by simpa using hgetD.symm) hother'
      | some other =>
        cases baseline' with
        | none => exact absurd (by simpa using hgetD) hother
        | some other' => simpa using hgetD
    · have hreads' : hasRelativeQorThreshold thresholds = false := by simpa using hreads
      rw [hnone hreads', hnone' (hrelative ▸ hreads')]
  case cycleCount.cycleCount target test thresholds target' test' others =>
    obtain ⟨hall, hstrict⟩ := hparams
    obtain ⟨hall', hstrict'⟩ := hparams'
    obtain ⟨_, _, _, hone, hsame⟩ := hall first hfirst
    obtain ⟨_, _, _, hone', hsame'⟩ := hall' first hfirst'
    obtain ⟨rfl, rfl, -⟩ := GoalParams.cycleCount.inj (hone.symm.trans hone')
    exact ⟨hsame.symm.trans hsame', hstrict.lookup_eq (fun param _ _ => strictness_injective param)
      (hstrict'.of_mem_iff (hfilter TranslatedGoal.thresholds))⟩
  case coverage.coverage target metrics tests target' others tests' =>
    obtain ⟨hall, hstrict⟩ := hparams
    obtain ⟨hall', hstrict'⟩ := hparams'
    obtain ⟨_, _, _, hone, hsame, hkey⟩ := hall first hfirst
    obtain ⟨_, _, _, hone', hsame', hkey'⟩ := hall' first hfirst'
    obtain ⟨rfl, -, rfl⟩ := GoalParams.coverage.inj (hone.symm.trans hone')
    exact ⟨hsame.symm.trans hsame', hkey.symm.trans hkey',
      hstrict.lookup_eq (fun _ _ _ h => h) (hstrict'.of_mem_iff (hfilter TranslatedGoal.floors))⟩
  case mutation.mutation params others =>
    obtain ⟨hall, hlargest⟩ := hparams
    obtain ⟨hall', hlargest'⟩ := hparams'
    obtain ⟨htarget, _, hone, hscope, htotal, hauto, -⟩ := hall first hfirst
    obtain ⟨htarget', _, hone', hscope', htotal', hauto', -⟩ := hall' first hfirst'
    obtain rfl := GoalParams.mutation.inj (hone.symm.trans hone')
    have hfloor : ∀ {left right : MutationParams},
        (∀ largest, left.minDetected = some largest → ∃ member ∈ members, ∃ others,
          member.params = .mutation others ∧ others.minDetected = some largest) →
        (∀ member ∈ members, ∃ others, member.params = .mutation others ∧
          ∀ floor, others.minDetected = some floor →
            ∃ largest, right.minDetected = some largest ∧ floor ≤ largest) →
        ∀ largest, left.minDetected = some largest →
          ∃ other, right.minDetected = some other ∧ largest ≤ other := by
      intro left right hleft hright largest hsome
      obtain ⟨member, hmember, given, hgiven, hmin⟩ := hleft largest hsome
      obtain ⟨given', hgiven', hle⟩ := hright member hmember
      obtain rfl := GoalParams.mutation.inj (hgiven.symm.trans hgiven')
      exact hle largest hmin
    have hforth := hfloor hlargest fun member hmember => by
      obtain ⟨-, given, hgiven, -, -, -, hle⟩ := hall' member ((hmem member).mp hmember)
      exact ⟨given, hgiven, hle⟩
    have hback := @hfloor others params
      (fun largest hsome => by
        obtain ⟨member, hmember, hgiven⟩ := hlargest' largest hsome
        exact ⟨member, (hmem member).mpr hmember, hgiven⟩)
      fun member hmember => by
        obtain ⟨-, given, hgiven, -, -, -, hle⟩ := hall member hmember
        exact ⟨given, hgiven, hle⟩
    have hmin : params.minDetected = others.minDetected := by
      cases hparams : params.minDetected with
      | none =>
        cases hothers : others.minDetected with
        | none => rfl
        | some other =>
          obtain ⟨_, hsome, -⟩ := hback other hothers
          simp [hparams] at hsome
      | some largest =>
        obtain ⟨other, hother, hle⟩ := hforth largest hparams
        obtain ⟨largest', hlargest', hge⟩ := hback other hother
        obtain rfl := Option.some.inj (hparams.symm.trans hlargest')
        rw [hother, le_antisymm hle hge]
    refine ⟨htarget.symm.trans htarget', ?_⟩
    cases params
    cases others
    simp_all
  case review.review review verdict spec target paths review' verdict' spec' target' paths' =>
    obtain ⟨hall, clean, hclean, hcleanParams⟩ := hparams
    obtain ⟨hall', clean', hclean', hcleanParams'⟩ := hparams'
    obtain ⟨_, hone, hdone⟩ := hall' clean ((hmem clean).mp hclean)
    obtain ⟨_, hone', hdone'⟩ := hall clean' ((hmem clean').mpr hclean')
    obtain ⟨rfl, rfl, rfl, rfl, rfl⟩ := GoalParams.review.inj (hcleanParams.symm.trans hone)
    obtain ⟨-, rfl, -⟩ := GoalParams.review.inj (hcleanParams'.symm.trans hone')
    refine ⟨rfl, ?_, rfl, rfl, rfl⟩
    cases verdict with
    | clean => exact (hdone rfl).symm
    | done =>
      cases verdict' with
      | clean => exact hdone' rfl
      | done => rfl

end Booley.Goals
