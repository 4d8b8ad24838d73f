import Booley.Goals.MergeGroups

/-!
# The mergers, in whatever order

For each family: the merger establishes the requirement of the merged Goal, and when it
succeeds on some members it succeeds on the same members in every order.
-/
namespace Booley.Goals

open Booley.Lib Booley.TestRuns

variable {floats : FloatArithmetic} {names : Option Checkout} {group : MergeGroup}
  {family : GoalFamily} {members members' : List (Member floats)}

theorem requireEqual_eq_ok {σ : Type} [DecidableEq σ] {what : String} {settings : List σ} :
    requireEqual members what settings = .ok () ↔
      ∀ setting ∈ settings, ∀ other ∈ settings, setting = other := by
  rw [← length_distinct_le_one_iff]
  unfold requireEqual
  by_cases h : (distinct settings).length > 1
  · have hnot : ¬ (distinct settings).length ≤ 1 := by omega
    simp [h, hnot]
  · have hle : (distinct settings).length ≤ 1 := by omega
    simp [h, hle]

theorem requireEqual_perm {σ : Type} [DecidableEq σ] {what : String} {settings others : List σ}
    (hperm : settings.Perm others) (h : requireEqual members what settings = .ok ()) :
    requireEqual members' what others = .ok () := by
  rw [requireEqual_eq_ok] at h ⊢
  intro setting hsetting other hother
  exact h setting (hperm.mem_iff.mpr hsetting) other (hperm.mem_iff.mpr hother)

/-- A merger in another order: it succeeds, decides something when the first did, and its
argument translates when the first one does. -/
def MergesAgain (floats : FloatArithmetic) (arg : GoalArg) (decisions : List MergeDecision)
    (again : Except TranslationError (GoalArg × List MergeDecision)) : Prop :=
  ∃ arg' decisions', again = .ok (arg', decisions') ∧ (decisions' = [] → decisions = []) ∧
    ∀ goal, translateOne floats arg = .ok goal → ∃ goal', translateOne floats arg' = .ok goal'

/-! ## Which shape a family has -/

theorem exists_target_of_family (arg : GoalArg)
    (h : arg.family = .sim ∨ arg.family = .lint ∨ arg.family = .elaboration) :
    ∃ target, arg = .target target := by
  cases arg with
  | target arg => exact ⟨arg, rfl⟩
  | implementation arg =>
    obtain hsynth | hfpga := arg.admitted
    · simp [GoalArg.family, hsynth] at h
    · simp [GoalArg.family, hfpga] at h
  | _ => simp [GoalArg.family] at h

theorem exists_implementation_of_family (arg : GoalArg)
    (h : arg.family = .synth ∨ arg.family = .fpga) : ∃ implementation, arg = .implementation implementation := by
  cases arg with
  | target arg =>
    obtain hsim | ⟨hlint | helaboration, -⟩ := arg.admitted
    · simp [GoalArg.family, hsim] at h
    · simp [GoalArg.family, hlint] at h
    · simp [GoalArg.family, helaboration] at h
  | implementation arg => exact ⟨arg, rfl⟩
  | _ => simp [GoalArg.family] at h

/-- The families whose arguments have a shape of their own. -/
theorem exists_arg_of_family {arg : GoalArg} :
    (arg.family = .cycleCount → ∃ cycle, arg = .cycleCount cycle) ∧
    (arg.family = .coverage → ∃ coverage, arg = .coverage coverage) ∧
    (arg.family = .mutation → ∃ mutation, arg = .mutation mutation) ∧
    (arg.family = .review → ∃ review, arg = .review review) := by
  cases arg with
  | target arg =>
    obtain hsim | ⟨hlint | helaboration, -⟩ := arg.admitted
    · simp [GoalArg.family, hsim]
    · simp [GoalArg.family, hlint]
    · simp [GoalArg.family, helaboration]
  | implementation arg =>
    obtain hsynth | hfpga := arg.admitted
    · simp [GoalArg.family, hsynth]
    · simp [GoalArg.family, hfpga]
  | _ => simp [GoalArg.family]

/-! ## Thresholds -/

/-- Members' thresholds merged and validated are the strictest ones. -/
theorem strictestOf_merged {items : List (WrittenBounds ThresholdParam)}
    (hitems : ∀ item ∈ items,
      validateCriterionParams floats family item.written = .ok item.normalized)
    {values : Dict ThresholdParam Rat}
    (h : validateCriterionParams floats family
      (authoredBounds (mergeValues stricterThreshold (items.map WrittenBounds.bounds)).chosen) =
        .ok values) :
    StrictestOf strictness (items.map WrittenBounds.normalized) values := by
  obtain ⟨normalized, hnormalized, hstrict⟩ := mapM_mergeValues thresholdsRanked
    (normalizeThreshold floats family) items fun item hitem =>
      (validateCriterionParams_eq_ok.mp (hitems item hitem)).2.1
  obtain ⟨-, hmapped, -⟩ := validateCriterionParams_eq_ok.mp h
  obtain rfl : normalized = values := Except.ok.inj (hnormalized.symm.trans hmapped)
  exact hstrict

/-- Thresholds that validate when merged in one order validate in every order. -/
theorem validate_merged_perm {items items' : List (WrittenBounds ThresholdParam)}
    (hperm : items.Perm items')
    (hitems : ∀ item ∈ items,
      validateCriterionParams floats family item.written = .ok item.normalized)
    {values : Dict ThresholdParam Rat}
    (h : validateCriterionParams floats family
      (authoredBounds (mergeValues stricterThreshold (items.map WrittenBounds.bounds)).chosen) =
        .ok values) :
    ∃ values', validateCriterionParams floats family
      (authoredBounds (mergeValues stricterThreshold (items'.map WrittenBounds.bounds)).chosen) =
        .ok values' ∧ ∀ param, values.lookup param = values'.lookup param := by
  have hstrict := strictestOf_merged hitems h
  obtain ⟨values', hmapped, hstrict'⟩ := mapM_mergeValues thresholdsRanked
    (normalizeThreshold floats family) items' fun item hitem =>
      (validateCriterionParams_eq_ok.mp (hitems item (hperm.mem_iff.mpr hitem))).2.1
  have hsame : ∀ param, values.lookup param = values'.lookup param :=
    hstrict.lookup_eq (fun param _ _ => strictness_injective param)
      (hstrict'.of_mem_iff fun given => (hperm.map _).mem_iff.symm)
  exact ⟨values', validateCriterionParams_congr h hmapped hsame, hsame⟩

theorem hasRelativeQorThreshold_written {written : Dict ThresholdParam Authored}
    {values : Dict ThresholdParam Rat}
    (h : validateCriterionParams floats family written = .ok values) :
    hasRelativeQorThreshold written = hasRelativeQorThreshold values := by
  obtain ⟨-, hmapped, -⟩ := validateCriterionParams_eq_ok.mp h
  refine hasRelativeQorThreshold_congr fun param => ?_
  rw [Bool.eq_iff_iff, ← mem_keys_of_mapM hmapped, ← AList.mem_keys, AList.lookup_isSome]

/-! ## Synthesis and FPGA Goals -/

/-- The thresholds of the implementation members, as a merge takes them. -/
def implementationItems (members : List (Member floats)) : List (WrittenBounds ThresholdParam) :=
  (implementationsOf members).map fun item => ⟨item.1.thresholds, item.2, item.1.origin⟩

/-- Every member is an implementation Goal of one Target. -/
structure Implementations (family : GoalFamily) (target : String) (members : List (Member floats)) :
    Prop where
  shape : ∀ member ∈ members, ∃ arg thresholds, member.arg = .implementation arg ∧
    arg.family = family ∧ arg.target = target ∧
    validateCriterionParams floats family arg.thresholds = .ok thresholds ∧
    (arg.baseline.isSome = true → hasRelativeQorThreshold thresholds = true) ∧
    member.goal = ⟨targetKey family target, family, some target,
      .implementation thresholds arg.baseline, [arg.origin]⟩

theorem implementations_of_inGroup (hgroup : InGroup names group family members)
    {arg : ImplementationGoalArg} {first : Member floats} (hmem : first ∈ members)
    (hfirst : first.arg = .implementation arg) :
    arg.family = family ∧ Implementations family arg.target members := by
  have hfamily : arg.family = family := by
    have := hgroup.family first hmem
    rwa [hfirst] at this
  refine ⟨hfamily, ⟨fun member hmember => ?_⟩⟩
  have hmemberFamily := hgroup.family member hmember
  obtain ⟨arg', harg⟩ := exists_implementation_of_family member.arg (by
    rw [hmemberFamily, ← hfamily]
    exact arg.admitted)
  have htranslated := member.translated
  have hfirstTranslated := first.translated
  have hown := hgroup.group member hmember
  have hshared := hgroup.group first hmem
  rw [harg] at htranslated hown hmemberFamily
  rw [hfirst] at hfirstTranslated hshared
  have hfamily' : arg'.family = family := hmemberFamily
  rw [mergeGroup_implementation htranslated, hfamily'] at hown
  rw [mergeGroup_implementation hfirstTranslated, hfamily] at hshared
  have hsame := sameTarget_of_plainGroup (Except.ok.inj (hown.trans hshared.symm))
  have htarget : arg'.target = arg.target := by
    have hnot : family ∉ testRunFamilies := by
      rw [← hfamily]
      obtain hsynth | hfpga := arg.admitted
      · simp [hsynth, testRunFamilies]
      · simp [hfpga, testRunFamilies]
    simpa [SameTarget, hnot] using hsame
  obtain ⟨thresholds, hvalid, hrelative, hgoal⟩ := translateOne_implementation.mp htranslated
  rw [hfamily'] at hvalid hgoal
  exact ⟨arg', thresholds, harg, hfamily', htarget, hvalid, hrelative, htarget ▸ hgoal⟩

namespace Implementations

variable {target : String}

theorem mem_implementationsOf (h : Implementations family target members)
    {item : ImplementationGoalArg × Dict ThresholdParam Rat} :
    item ∈ implementationsOf members ↔
      ∃ member ∈ members, member.arg = .implementation item.1 ∧
        member.goal.params = .implementation item.2 item.1.baseline := by
  simp only [implementationsOf, List.mem_filterMap]
  constructor
  · rintro ⟨member, hmember, hitem⟩
    obtain ⟨arg, thresholds, harg, -, -, -, -, hgoal⟩ := h.shape member hmember
    simp only [harg, hgoal, Option.some.injEq] at hitem
    subst hitem
    exact ⟨member, hmember, harg, by rw [hgoal]⟩
  · rintro ⟨member, hmember, harg, hparams⟩
    exact ⟨member, hmember, by simp [harg, hparams]⟩

/-- What a merge knows of each of its items. -/
theorem item (h : Implementations family target members)
    {item : ImplementationGoalArg × Dict ThresholdParam Rat}
    (hitem : item ∈ implementationsOf members) :
    item.1.target = target ∧
      validateCriterionParams floats family item.1.thresholds = .ok item.2 ∧
      (item.1.baseline.isSome = true → hasRelativeQorThreshold item.2 = true) := by
  obtain ⟨member, hmember, harg, hparams⟩ := h.mem_implementationsOf.mp hitem
  obtain ⟨arg, thresholds, harg', -, htarget, hvalid, hrelative, hgoal⟩ := h.shape member hmember
  obtain rfl : arg = item.1 := GoalArg.implementation.inj (harg'.symm.trans harg)
  rw [hgoal] at hparams
  obtain ⟨rfl, -⟩ := GoalParams.implementation.inj hparams
  exact ⟨htarget, hvalid, hrelative⟩

theorem validItems (h : Implementations family target members) :
    ∀ item ∈ implementationItems members,
      validateCriterionParams floats family item.written = .ok item.normalized := by
  intro item hitem
  obtain ⟨given, hgiven, rfl⟩ := List.mem_map.mp hitem
  exact (h.item hgiven).2.1

theorem mem_thresholds (h : Implementations family target members)
    (values : Dict ThresholdParam Rat) :
    values ∈ (implementationItems members).map WrittenBounds.normalized ↔
      values ∈ (memberGoals members).filterMap TranslatedGoal.thresholds := by
  simp only [implementationItems, memberGoals, List.map_map, List.mem_map, List.mem_filterMap,
    Function.comp, exists_exists_and_eq_and]
  constructor
  · rintro ⟨item, hitem, rfl⟩
    obtain ⟨member, hmember, -, hparams⟩ := h.mem_implementationsOf.mp hitem
    exact ⟨member, hmember, by simp [TranslatedGoal.thresholds, hparams]⟩
  · rintro ⟨member, hmember, hthresholds⟩
    obtain ⟨arg, thresholds, harg, -, -, -, -, hgoal⟩ := h.shape member hmember
    obtain rfl : thresholds = values := by
      simpa [TranslatedGoal.thresholds, hgoal] using hthresholds
    exact ⟨(arg, thresholds), h.mem_implementationsOf.mpr ⟨member, hmember, harg, by rw [hgoal]⟩,
      rfl⟩

/-- A member has an opinion about the baseline exactly when it reads one. -/
theorem baselineOpinion_eq (h : Implementations family target members)
    {item : ImplementationGoalArg × Dict ThresholdParam Rat}
    (hitem : item ∈ implementationsOf members) :
    baselineOpinion item.1 =
      if hasRelativeQorThreshold item.2 = true then some (item.1.baseline.getD target)
      else none := by
  obtain ⟨htarget, hvalid, hrelative⟩ := h.item hitem
  unfold baselineOpinion
  rw [hasRelativeQorThreshold_written hvalid]
  cases hbaseline : item.1.baseline with
  | none => simp [htarget]
  | some baseline => simp [hrelative (by simp [hbaseline])]

end Implementations

theorem mergeImplementation_eq_ok {first : ImplementationGoalArg} {arg : GoalArg}
    {decisions : List MergeDecision} :
    mergeImplementation first members = .ok (arg, decisions) ↔
      requireEqual members "baseline Targets"
        ((implementationsOf members).filterMap fun item => baselineOpinion item.1) = .ok () ∧
      ∃ merged : ImplementationGoalArg, arg = .implementation merged ∧
        merged.family = first.family ∧ merged.target = first.target ∧
        merged.origin = first.origin ∧
        merged.thresholds = authoredBounds (mergeValues stricterThreshold
          ((implementationItems members).map WrittenBounds.bounds)).chosen ∧
        merged.baseline =
          (if ((implementationsOf members).filterMap fun item => baselineOpinion item.1).head? =
            some first.target then none
          else ((implementationsOf members).filterMap fun item => baselineOpinion item.1).head?) ∧
        decisions = (mergeValues stricterThreshold
          ((implementationItems members).map WrittenBounds.bounds)).decisions.map .threshold := by
  have hbounds : ((implementationsOf members).map fun item =>
      boundsOf item.1.thresholds item.2 item.1.origin) =
      (implementationItems members).map WrittenBounds.bounds := by
    simp [implementationItems, WrittenBounds.bounds, Function.comp_def]
  simp only [mergeImplementation, except_bind_eq_ok, hbounds]
  constructor
  · rintro ⟨⟨⟩, hequal, h⟩
    obtain ⟨rfl, rfl⟩ := Prod.mk.inj (Except.ok.inj h)
    exact ⟨hequal, _, rfl, rfl, rfl, rfl, rfl, rfl, rfl⟩
  · rintro ⟨hequal, merged, rfl, hfamily, htarget, horigin, hthresholds, hbaseline, rfl⟩
    refine ⟨(), hequal, ?_⟩
    rw [Except.ok.injEq, Prod.mk.injEq, GoalArg.implementation.injEq]
    refine ⟨?_, rfl⟩
    cases merged
    simp only at hfamily htarget horigin hthresholds hbaseline
    subst hfamily htarget horigin hthresholds hbaseline
    rfl

/-- The baseline of a merge is the one its members read. -/
theorem mergedBaseline {target : String} (h : Implementations family target members)
    (hequal : ∀ opinion ∈ (implementationsOf members).filterMap fun item => baselineOpinion item.1,
      ∀ other ∈ (implementationsOf members).filterMap fun item => baselineOpinion item.1,
        opinion = other)
    {baseline : Option String}
    (hbaseline : baseline =
      (if ((implementationsOf members).filterMap fun item => baselineOpinion item.1).head? =
        some target then none
      else ((implementationsOf members).filterMap fun item => baselineOpinion item.1).head?)) :
    (∀ item ∈ implementationsOf members, hasRelativeQorThreshold item.2 = true →
      item.1.baseline.getD target = baseline.getD target) ∧
    (baseline.isSome = true → ∃ item ∈ implementationsOf members,
      hasRelativeQorThreshold item.2 = true) := by
  constructor
  · intro item hitem hrelative
    have hopinion : item.1.baseline.getD target ∈
        (implementationsOf members).filterMap fun item => baselineOpinion item.1 := by
      refine List.mem_filterMap.mpr ⟨item, hitem, ?_⟩
      rw [h.baselineOpinion_eq hitem, if_pos hrelative]
    cases hhead : ((implementationsOf members).filterMap fun item =>
        baselineOpinion item.1).head? with
    | none => simp [List.head?_eq_none_iff.mp hhead] at hopinion
    | some opinion =>
      rw [hhead] at hbaseline
      have hsame := hequal _ hopinion _ (List.mem_of_head? hhead)
      rw [hsame, hbaseline]
      by_cases htarget : opinion = target
      · simp [htarget]
      · simp [htarget]
  · intro hsome
    cases hhead : ((implementationsOf members).filterMap fun item =>
        baselineOpinion item.1).head? with
    | none => simp [hbaseline, hhead] at hsome
    | some opinion =>
      obtain ⟨item, hitem, hopinion⟩ := List.mem_filterMap.mp (List.mem_of_head? hhead)
      rw [h.baselineOpinion_eq hitem] at hopinion
      by_cases hrelative : hasRelativeQorThreshold item.2 = true
      · exact ⟨item, hitem, hrelative⟩
      · simp [hrelative] at hopinion

theorem mergedOf_implementation (hgroup : InGroup names group family members)
    {first : Member floats} (hmem : first ∈ members) {own : ImplementationGoalArg}
    (hfirst : first.arg = .implementation own) {arg : GoalArg} {decisions : List MergeDecision}
    (h : mergeImplementation own members = .ok (arg, decisions)) {goal : TranslatedGoal}
    (hgoal : translateOne floats arg = .ok goal) : MergedOf names (memberGoals members) goal := by
  obtain ⟨hfamily, himpl⟩ := implementations_of_inGroup hgroup hmem hfirst
  obtain ⟨hequal, merged, rfl, hmergedFamily, htarget, -, hthresholds, hbaseline, -⟩ :=
    mergeImplementation_eq_ok.mp h
  obtain ⟨thresholds, hvalid, -, rfl⟩ := translateOne_implementation.mp hgoal
  rw [hmergedFamily, hfamily, hthresholds] at hvalid
  have hstrict := strictestOf_merged himpl.validItems hvalid
  obtain ⟨hread, hsome⟩ := mergedBaseline himpl (requireEqual_eq_ok.mp hequal) hbaseline
  have hmembers : ∀ member ∈ memberGoals members, ∃ item ∈ implementationsOf members,
      member = ⟨targetKey family own.target, family, some own.target,
        .implementation item.2 item.1.baseline, [item.1.origin]⟩ := by
    intro member hmember
    obtain ⟨given, hgiven, rfl⟩ := List.mem_map.mp hmember
    obtain ⟨arg, values, harg, -, -, -, -, hshape⟩ := himpl.shape given hgiven
    exact ⟨(arg, values), himpl.mem_implementationsOf.mpr ⟨given, hgiven, harg, by rw [hshape]⟩,
      hshape⟩
  constructor
  · intro member hmember
    obtain ⟨item, -, rfl⟩ := hmembers member hmember
    rw [hmergedFamily, hfamily]
  · refine ⟨?_, hstrict.of_mem_iff himpl.mem_thresholds, ?_, ?_⟩
    · intro member hmember
      obtain ⟨item, hitem, rfl⟩ := hmembers member hmember
      refine ⟨by simp [TranslatedGoal.targetName, htarget], item.2, item.1.baseline, rfl, ?_⟩
      intro hrelative
      simpa [TranslatedGoal.targetName, htarget] using hread item hitem hrelative
    · intro hnone
      cases hmergedBaseline : merged.baseline with
      | none => rfl
      | some baseline =>
        obtain ⟨item, hitem, hrelative⟩ := hsome (by simp [hmergedBaseline])
        have hmem' : item.2 ∈ (implementationItems members).map WrittenBounds.normalized :=
          List.mem_map.mpr ⟨_, List.mem_map.mpr ⟨item, hitem, rfl⟩, rfl⟩
        have := hstrict.hasRelative_iff.mpr ⟨item.2, hmem', hrelative⟩
        simp [hnone] at this
    · simpa [TranslatedGoal.targetName] using merged.otherTarget

theorem implementationsOf_perm (hperm : members.Perm members') :
    (implementationsOf members).Perm (implementationsOf members') :=
  hperm.filterMap _

theorem mergeImplementation_perm (hgroup : InGroup names group family members)
    (hperm : members.Perm members') {first first' : Member floats} (hmem : first ∈ members)
    (hmem' : first' ∈ members) {own own' : ImplementationGoalArg}
    (hfirst : first.arg = .implementation own) (hfirst' : first'.arg = .implementation own')
    {arg : GoalArg} {decisions : List MergeDecision}
    (h : mergeImplementation own members = .ok (arg, decisions)) :
    MergesAgain floats arg decisions (mergeImplementation own' members') := by
  obtain ⟨hfamily, himpl⟩ := implementations_of_inGroup hgroup hmem hfirst
  obtain ⟨hfamily', himpl'⟩ := implementations_of_inGroup
    (hgroup.of_mem_iff fun _ => hperm.mem_iff.symm) (hperm.mem_iff.mp hmem') hfirst'
  obtain ⟨hequal, merged, rfl, hmergedFamily, htarget, -, hthresholds, hbaseline, rfl⟩ :=
    mergeImplementation_eq_ok.mp h
  have hitems := implementationsOf_perm hperm
  have hopinions := hitems.filterMap fun item => baselineOpinion item.1
  have hbounds : (implementationItems members).Perm (implementationItems members') :=
    hitems.map _
  have hequal' : requireEqual members' "baseline Targets"
      ((implementationsOf members').filterMap fun item => baselineOpinion item.1) = .ok () :=
    requireEqual_perm hopinions hequal
  obtain ⟨arg', decisions', hagain⟩ :
      ∃ arg' decisions', mergeImplementation own' members' = .ok (arg', decisions') := by
    simp only [mergeImplementation, hequal']
    exact ⟨_, _, rfl⟩
  obtain ⟨-, merged', rfl, hmergedFamily', -, -, hthresholds', hbaseline', rfl⟩ :=
    mergeImplementation_eq_ok.mp hagain
  refine ⟨_, _, hagain, ?_, ?_⟩
  · intro hnone
    have := decisions_mergeValues_perm thresholdsRanked (hbounds.map WrittenBounds.bounds)
      (List.map_eq_nil_iff.mp hnone)
    simp [this]
  · intro goal hgoal
    obtain ⟨thresholds, hvalid, hrelative, rfl⟩ := translateOne_implementation.mp hgoal
    rw [hmergedFamily, hfamily, hthresholds] at hvalid
    obtain ⟨thresholds', hvalid', hsame⟩ := validate_merged_perm hbounds himpl.validItems hvalid
    refine ⟨_, translateOne_implementation.mpr ⟨thresholds', ?_, ?_, rfl⟩⟩
    · rw [hmergedFamily', hfamily', hthresholds']
      exact hvalid'
    · intro hsome
      obtain ⟨item, hitem, hitemRelative⟩ :=
        (mergedBaseline himpl' (requireEqual_eq_ok.mp hequal') hbaseline').2 hsome
      have hstrict := strictestOf_merged himpl.validItems hvalid
      have hmem' : item.2 ∈ (implementationItems members).map WrittenBounds.normalized :=
        List.mem_map.mpr ⟨_, List.mem_map.mpr ⟨item, hitems.mem_iff.mpr hitem, rfl⟩, rfl⟩
      have hreads := hstrict.hasRelative_iff.mpr ⟨item.2, hmem', hitemRelative⟩
      rw [← hreads]
      exact (hasRelativeQorThreshold_congr fun param => by rw [hsame param]).symm

/-! ## Cycle Count Goals -/

def cycleCountItems (members : List (Member floats)) : List (WrittenBounds ThresholdParam) :=
  (cycleCountsOf members).map fun item => ⟨item.1.thresholds, item.2, item.1.origin⟩

/-- Every member is a Cycle Count Goal of one Test Run. -/
structure CycleCounts (names : Option Checkout) (identity : TestIdentity)
    (members : List (Member floats)) : Prop where
  shape : ∀ member ∈ members, ∃ arg thresholds, member.arg = .cycleCount arg ∧
    canonicalIdentity names arg.target arg.test.selector = .ok identity ∧
    validateCriterionParams floats .cycleCount arg.thresholds = .ok thresholds ∧
    arg.thresholds.keys ≠ [] ∧
    member.goal = ⟨cycleCountCriterionKey arg.target arg.test.text, .cycleCount, some arg.target,
      .cycleCount arg.target arg.test thresholds, [arg.origin]⟩

theorem cycleCounts_of_inGroup (hgroup : InGroup names group .cycleCount members)
    (hne : members ≠ []) : ∃ identity, CycleCounts names identity members := by
  have hshape : ∀ member ∈ members, ∃ arg, member.arg = .cycleCount arg ∧ ∃ identity,
      canonicalIdentity names arg.target arg.test.selector = .ok identity ∧
        group = .selector .cycleCount identity := by
    intro member hmember
    obtain ⟨arg, harg⟩ := exists_arg_of_family.1 (hgroup.family member hmember)
    have hown := hgroup.group member hmember
    rw [harg, mergeGroup_of_selector (show oneSelector (.cycleCount arg) = some arg.test from rfl)]
      at hown
    exact ⟨arg, harg, hown⟩
  obtain ⟨first, hfirst⟩ := List.exists_mem_of_ne_nil members hne
  obtain ⟨_, -, identity, -, hidentity⟩ := hshape first hfirst
  refine ⟨identity, ⟨fun member hmember => ?_⟩⟩
  obtain ⟨arg, harg, other, hother, hgroupEq⟩ := hshape member hmember
  have hsame : identity = other := by
    rw [hidentity] at hgroupEq
    exact (MergeGroup.selector.inj hgroupEq).2
  have htranslated := member.translated
  rw [harg] at htranslated
  obtain ⟨hkeys, thresholds, hvalid, hgoal⟩ := translateOne_cycleCount.mp htranslated
  exact ⟨arg, thresholds, harg, hsame ▸ hother, hvalid, hkeys, hgoal⟩

namespace CycleCounts

variable {identity : TestIdentity}

theorem mem_cycleCountsOf (h : CycleCounts names identity members)
    {item : CycleCountGoalArg × Dict ThresholdParam Rat} :
    item ∈ cycleCountsOf members ↔
      ∃ member ∈ members, member.arg = .cycleCount item.1 ∧
        member.goal.params = .cycleCount item.1.target item.1.test item.2 := by
  simp only [cycleCountsOf, List.mem_filterMap]
  constructor
  · rintro ⟨member, hmember, hitem⟩
    obtain ⟨arg, thresholds, harg, -, -, -, hgoal⟩ := h.shape member hmember
    simp only [harg, hgoal, Option.some.injEq] at hitem
    subst hitem
    exact ⟨member, hmember, harg, by rw [hgoal]⟩
  · rintro ⟨member, hmember, harg, hparams⟩
    exact ⟨member, hmember, by simp [harg, hparams]⟩

theorem validItems (h : CycleCounts names identity members) :
    ∀ item ∈ cycleCountItems members,
      validateCriterionParams floats .cycleCount item.written = .ok item.normalized := by
  intro item hitem
  obtain ⟨given, hgiven, rfl⟩ := List.mem_map.mp hitem
  obtain ⟨member, hmember, harg, hparams⟩ := h.mem_cycleCountsOf.mp hgiven
  obtain ⟨arg, thresholds, harg', -, hvalid, -, hgoal⟩ := h.shape member hmember
  obtain rfl : arg = given.1 := GoalArg.cycleCount.inj (harg'.symm.trans harg)
  rw [hgoal] at hparams
  obtain ⟨-, -, rfl⟩ := GoalParams.cycleCount.inj hparams
  exact hvalid

theorem mem_thresholds (h : CycleCounts names identity members)
    (values : Dict ThresholdParam Rat) :
    values ∈ (cycleCountItems members).map WrittenBounds.normalized ↔
      values ∈ (memberGoals members).filterMap TranslatedGoal.thresholds := by
  simp only [cycleCountItems, memberGoals, List.map_map, List.mem_map, List.mem_filterMap,
    Function.comp, exists_exists_and_eq_and]
  constructor
  · rintro ⟨item, hitem, rfl⟩
    obtain ⟨member, hmember, -, hparams⟩ := h.mem_cycleCountsOf.mp hitem
    exact ⟨member, hmember, by simp [TranslatedGoal.thresholds, hparams]⟩
  · rintro ⟨member, hmember, hthresholds⟩
    obtain ⟨arg, thresholds, harg, -, -, -, hgoal⟩ := h.shape member hmember
    obtain rfl : thresholds = values := by
      simpa [TranslatedGoal.thresholds, hgoal] using hthresholds
    exact ⟨(arg, thresholds), h.mem_cycleCountsOf.mpr ⟨member, hmember, harg, by rw [hgoal]⟩, rfl⟩

end CycleCounts

theorem mergeCycleCount_eq (first : CycleCountGoalArg) (members : List (Member floats)) :
    mergeCycleCount first members =
      (.cycleCount { first with
          thresholds := authoredBounds (mergeValues stricterThreshold
            ((cycleCountItems members).map WrittenBounds.bounds)).chosen },
        (mergeValues stricterThreshold
          ((cycleCountItems members).map WrittenBounds.bounds)).decisions.map .threshold) := by
  have hbounds : ((cycleCountsOf members).map fun item =>
      boundsOf item.1.thresholds item.2 item.1.origin) =
      (cycleCountItems members).map WrittenBounds.bounds := by
    simp [cycleCountItems, WrittenBounds.bounds, Function.comp_def]
  simp only [mergeCycleCount, hbounds]

theorem mergedOf_cycleCount (hgroup : InGroup names group .cycleCount members)
    {first : Member floats} (hmem : first ∈ members) {own : CycleCountGoalArg}
    (hfirst : first.arg = .cycleCount own) {goal : TranslatedGoal}
    (hgoal : translateOne floats (mergeCycleCount own members).1 = .ok goal) :
    MergedOf names (memberGoals members) goal := by
  obtain ⟨identity, hcycles⟩ := cycleCounts_of_inGroup hgroup (List.ne_nil_of_mem hmem)
  rw [mergeCycleCount_eq] at hgoal
  obtain ⟨-, thresholds, hvalid, rfl⟩ := translateOne_cycleCount.mp hgoal
  have hstrict := strictestOf_merged hcycles.validItems hvalid
  obtain ⟨arg, _, harg, hidentity, -, -, -⟩ := hcycles.shape first hmem
  obtain rfl : arg = own := GoalArg.cycleCount.inj (harg.symm.trans hfirst)
  constructor
  · intro member hmember
    obtain ⟨given, hgiven, rfl⟩ := List.mem_map.mp hmember
    obtain ⟨_, _, -, -, -, -, hshape⟩ := hcycles.shape given hgiven
    rw [hshape]
  · refine ⟨?_, hstrict.of_mem_iff hcycles.mem_thresholds⟩
    intro member hmember
    obtain ⟨given, hgiven, rfl⟩ := List.mem_map.mp hmember
    obtain ⟨arg', values, -, hidentity', -, -, hshape⟩ := hcycles.shape given hgiven
    exact ⟨arg'.target, arg'.test, values, by rw [hshape], hidentity'.trans hidentity.symm⟩

theorem mergeCycleCount_perm (hgroup : InGroup names group .cycleCount members)
    (hperm : members.Perm members') (hne : members ≠ [])
    (own own' : CycleCountGoalArg) :
    MergesAgain floats (mergeCycleCount own members).1 (mergeCycleCount own members).2
      (.ok (mergeCycleCount own' members')) := by
  obtain ⟨identity, hcycles⟩ := cycleCounts_of_inGroup hgroup hne
  have hbounds : (cycleCountItems members).Perm (cycleCountItems members') :=
    (hperm.filterMap _).map _
  rw [mergeCycleCount_eq, mergeCycleCount_eq]
  refine ⟨_, _, rfl, ?_, ?_⟩
  · intro hnone
    have := decisions_mergeValues_perm thresholdsRanked (hbounds.map WrittenBounds.bounds)
      (List.map_eq_nil_iff.mp hnone)
    simp [this]
  · intro goal hgoal
    obtain ⟨hkeys, thresholds, hvalid, -⟩ := translateOne_cycleCount.mp hgoal
    obtain ⟨thresholds', hvalid', hsame⟩ := validate_merged_perm hbounds hcycles.validItems hvalid
    refine ⟨_, translateOne_cycleCount.mpr ⟨?_, thresholds', hvalid', rfl⟩⟩
    obtain ⟨param, hparam⟩ := List.exists_mem_of_ne_nil _ hkeys
    refine List.ne_nil_of_mem (a := param) ?_
    rw [mem_keys_of_mapM (validateCriterionParams_eq_ok.mp hvalid').2.1, ← hsame]
    exact (mem_keys_of_mapM (validateCriterionParams_eq_ok.mp hvalid).2.1).mp hparam

/-! ## Coverage Goals -/

def coverageItems (members : List (Member floats)) : List (WrittenBounds CoverageMetric) :=
  (coveragesOf members).map fun item => ⟨item.1.metrics, item.2, item.1.origin⟩

/-- Every member is a coverage Goal of one Target. -/
structure Coverages (names : Option Checkout) (identity : String)
    (members : List (Member floats)) : Prop where
  shape : ∀ member ∈ members, ∃ arg metrics, member.arg = .coverage arg ∧
    identityOf names arg.target = identity ∧
    Dict.mapM validateCoverageFloor arg.metrics = .ok metrics ∧
    arg.metrics.keys ≠ [] ∧ validateCoverageTests arg.tests = .ok () ∧
    member.goal = ⟨targetKey .coverage arg.target, .coverage, some arg.target,
      .coverage arg.target metrics arg.tests, [arg.origin]⟩

theorem coverages_of_inGroup (hgroup : InGroup names group .coverage members)
    {own : CoverageGoalArg} {first : Member floats} (hmem : first ∈ members)
    (hfirst : first.arg = .coverage own) : Coverages names (identityOf names own.target) members := by
  have hfirstTranslated := first.translated
  have hshared := hgroup.group first hmem
  rw [hfirst] at hfirstTranslated hshared
  rw [mergeGroup_coverage hfirstTranslated] at hshared
  refine ⟨fun member hmember => ?_⟩
  obtain ⟨arg, harg⟩ := exists_arg_of_family.2.1 (hgroup.family member hmember)
  have htranslated := member.translated
  have hown := hgroup.group member hmember
  rw [harg] at htranslated hown
  rw [mergeGroup_coverage htranslated] at hown
  have hsame := sameTarget_of_plainGroup (Except.ok.inj (hown.trans hshared.symm))
  have hidentity : identityOf names arg.target = identityOf names own.target := by
    simpa [SameTarget, testRunFamilies] using hsame
  obtain ⟨hkeys, htests, metrics, hmetrics, hgoal⟩ := translateOne_coverage.mp htranslated
  exact ⟨arg, metrics, harg, hidentity, hmetrics, hkeys, htests, hgoal⟩

namespace Coverages

variable {identity : String}

theorem mem_coveragesOf (h : Coverages names identity members)
    (item : CoverageGoalArg × Dict CoverageMetric Rat) :
    item ∈ coveragesOf members ↔
      ∃ member ∈ members, member.arg = .coverage item.1 ∧
        member.goal.params = .coverage item.1.target item.2 item.1.tests := by
  simp only [coveragesOf, List.mem_filterMap]
  constructor
  · rintro ⟨member, hmember, hitem⟩
    obtain ⟨arg, metrics, harg, -, -, -, -, hgoal⟩ := h.shape member hmember
    simp only [harg, hgoal, Option.some.injEq] at hitem
    subst hitem
    exact ⟨member, hmember, harg, by rw [hgoal]⟩
  · rintro ⟨member, hmember, harg, hparams⟩
    exact ⟨member, hmember, by simp [harg, hparams]⟩

theorem validItems (h : Coverages names identity members) :
    ∀ item ∈ coverageItems members,
      Dict.mapM validateCoverageFloor item.written = .ok item.normalized := by
  intro item hitem
  obtain ⟨given, hgiven, rfl⟩ := List.mem_map.mp hitem
  obtain ⟨member, hmember, harg, hparams⟩ := (h.mem_coveragesOf given).mp hgiven
  obtain ⟨arg, metrics, harg', -, hmetrics, -, -, hgoal⟩ := h.shape member hmember
  obtain rfl : arg = given.1 := GoalArg.coverage.inj (harg'.symm.trans harg)
  rw [hgoal] at hparams
  obtain ⟨-, rfl, -⟩ := GoalParams.coverage.inj hparams
  exact hmetrics

theorem mem_floors (h : Coverages names identity members) (values : Dict CoverageMetric Rat) :
    values ∈ (coverageItems members).map WrittenBounds.normalized ↔
      values ∈ (memberGoals members).filterMap TranslatedGoal.floors := by
  simp only [coverageItems, memberGoals, List.map_map, List.mem_map, List.mem_filterMap,
    Function.comp, exists_exists_and_eq_and]
  constructor
  · rintro ⟨item, hitem, rfl⟩
    obtain ⟨member, hmember, -, hparams⟩ := (h.mem_coveragesOf item).mp hitem
    exact ⟨member, hmember, by simp [TranslatedGoal.floors, hparams]⟩
  · rintro ⟨member, hmember, hfloors⟩
    obtain ⟨arg, metrics, harg, -, -, -, -, hgoal⟩ := h.shape member hmember
    obtain rfl : metrics = values := by simpa [TranslatedGoal.floors, hgoal] using hfloors
    exact ⟨(arg, metrics), (h.mem_coveragesOf _).mpr ⟨member, hmember, harg, by rw [hgoal]⟩, rfl⟩

end Coverages

/-- The selections of coverage members, written differently or not. -/
def selectionNote (members : List (Member floats)) : List MergeDecision :=
  let written := distinct ((coveragesOf members).map fun item => writtenTests item.1.tests)
  if written.length > 1 then [.sameSelections written] else []

theorem mergeCoverage_eq_ok {first : CoverageGoalArg} {arg : GoalArg}
    {decisions : List MergeDecision} :
    mergeCoverage names first members = .ok (arg, decisions) ↔
      ∃ keys, ((coveragesOf members).mapM fun item =>
          coverageTestsKey names item.1.target item.1.tests) = .ok keys ∧
        (∀ key ∈ keys, ∀ other ∈ keys, key = other) ∧
        arg = .coverage { first with
          metrics := authoredBounds (mergeValues (fun _ candidate current => current < candidate)
            ((coverageItems members).map WrittenBounds.bounds)).chosen } ∧
        decisions = (mergeValues (fun _ candidate current => current < candidate)
          ((coverageItems members).map WrittenBounds.bounds)).decisions.map .floor ++
            selectionNote members := by
  have hbounds : ((coveragesOf members).map fun item =>
      boundsOf item.1.metrics item.2 item.1.origin) =
      (coverageItems members).map WrittenBounds.bounds := by
    simp [coverageItems, WrittenBounds.bounds, Function.comp_def]
  simp only [mergeCoverage, coverageKeys, except_bind_eq_ok, hbounds, except_mapError_eq_ok]
  constructor
  · rintro ⟨keys, hkeys, ⟨⟩, hequal, h⟩
    obtain ⟨rfl, rfl⟩ := Prod.mk.inj (Except.ok.inj h)
    exact ⟨keys, hkeys, requireEqual_eq_ok.mp hequal, rfl, rfl⟩
  · rintro ⟨keys, hkeys, hequal, rfl, rfl⟩
    exact ⟨keys, hkeys, (), requireEqual_eq_ok.mpr hequal, rfl⟩

theorem mergedOf_coverage (hgroup : InGroup names group .coverage members)
    {first : Member floats} (hmem : first ∈ members) {own : CoverageGoalArg}
    (hfirst : first.arg = .coverage own) {arg : GoalArg} {decisions : List MergeDecision}
    (h : mergeCoverage names own members = .ok (arg, decisions)) {goal : TranslatedGoal}
    (hgoal : translateOne floats arg = .ok goal) : MergedOf names (memberGoals members) goal := by
  have hcoverages := coverages_of_inGroup hgroup hmem hfirst
  obtain ⟨keys, hkeys, hequal, rfl, -⟩ := mergeCoverage_eq_ok.mp h
  obtain ⟨-, -, metrics, hmetrics, rfl⟩ := translateOne_coverage.mp hgoal
  obtain ⟨normalized, hnormalized, hstrict⟩ := mapM_mergeValues floorsRanked
    validateCoverageFloor (coverageItems members) hcoverages.validItems
  obtain rfl : normalized = metrics := Except.ok.inj (hnormalized.symm.trans hmetrics)
  have hkeyOf : ∀ member ∈ members, ∀ arg metrics, member.arg = .coverage arg →
      member.goal.params = .coverage arg.target metrics arg.tests →
        ∃ key ∈ keys, coverageTestsKey names arg.target arg.tests = .ok key := by
    intro member hmember arg metrics harg hparams
    have hitem := (hcoverages.mem_coveragesOf (arg, metrics)).mpr
      ⟨member, hmember, harg, hparams⟩
    obtain ⟨key, hkey⟩ := exists_of_except_mapM_eq_ok hkeys hitem
    exact ⟨key, (mem_of_except_mapM_eq_ok hkeys key).mpr ⟨_, hitem, hkey⟩, hkey⟩
  obtain ⟨arg, values, harg, -, -, -, -, hshape⟩ := hcoverages.shape first hmem
  obtain rfl : arg = own := GoalArg.coverage.inj (harg.symm.trans hfirst)
  obtain ⟨key, hkey, hown⟩ := hkeyOf first hmem arg values harg (by rw [hshape])
  constructor
  · intro member hmember
    obtain ⟨given, hgiven, rfl⟩ := List.mem_map.mp hmember
    obtain ⟨_, _, -, -, -, -, -, hshape⟩ := hcoverages.shape given hgiven
    rw [hshape]
  · refine ⟨?_, hstrict.of_mem_iff hcoverages.mem_floors⟩
    intro member hmember
    obtain ⟨given, hgiven, rfl⟩ := List.mem_map.mp hmember
    obtain ⟨arg', values', harg', hidentity, -, -, -, hshape'⟩ := hcoverages.shape given hgiven
    obtain ⟨key', hkey', hown'⟩ := hkeyOf given hgiven arg' values' harg' (by rw [hshape'])
    exact ⟨arg'.target, values', arg'.tests, by rw [hshape'], hidentity,
      by rw [hown', hown, hequal key' hkey' key hkey]⟩

theorem mergeCoverage_perm (hgroup : InGroup names group .coverage members)
    (hperm : members.Perm members') {first first' : Member floats} (hmem : first ∈ members)
    (hmem' : first' ∈ members) {own own' : CoverageGoalArg} (hfirst : first.arg = .coverage own)
    (hfirst' : first'.arg = .coverage own') {arg : GoalArg} {decisions : List MergeDecision}
    (h : mergeCoverage names own members = .ok (arg, decisions)) :
    MergesAgain floats arg decisions (mergeCoverage names own' members') := by
  have hcoverages := coverages_of_inGroup hgroup hmem hfirst
  obtain ⟨keys, hkeys, hequal, rfl, rfl⟩ := mergeCoverage_eq_ok.mp h
  have hitems : (coveragesOf members).Perm (coveragesOf members') := hperm.filterMap _
  have hbounds : (coverageItems members).Perm (coverageItems members') := hitems.map _
  obtain ⟨keys', hkeys'⟩ : ∃ keys', ((coveragesOf members').mapM fun item =>
      coverageTestsKey names item.1.target item.1.tests) = .ok keys' :=
    exists_except_mapM fun item hitem =>
      exists_of_except_mapM_eq_ok hkeys (hitems.mem_iff.mpr hitem)
  have hmemKeys : ∀ key ∈ keys', key ∈ keys := by
    intro key hkey
    obtain ⟨item, hitem, hkeyOf⟩ := (mem_of_except_mapM_eq_ok hkeys' key).mp hkey
    exact (mem_of_except_mapM_eq_ok hkeys key).mpr ⟨item, hitems.mem_iff.mpr hitem, hkeyOf⟩
  refine ⟨_, _, mergeCoverage_eq_ok.mpr ⟨keys', hkeys', fun key hkey other hother =>
    hequal key (hmemKeys key hkey) other (hmemKeys other hother), rfl, rfl⟩, ?_, ?_⟩
  · intro hnone
    obtain ⟨hdecisions, hnote⟩ := List.append_eq_nil_iff.mp hnone
    have hfloors := decisions_mergeValues_perm floorsRanked (hbounds.map WrittenBounds.bounds)
      (List.map_eq_nil_iff.mp hdecisions)
    have hselections : selectionNote members = [] := by
      have hwritten := distinct_perm fun written => (hitems.map fun item =>
        writtenTests item.1.tests).mem_iff (a := written)
      simpa [selectionNote, hwritten.length_eq] using hnote
    simp only [hselections, List.append_nil, List.map_eq_nil_iff]
    exact hfloors
  · intro goal hgoal
    obtain ⟨hset, -, metrics, hmetrics, -⟩ := translateOne_coverage.mp hgoal
    obtain ⟨metrics', hmetrics', hstrict'⟩ := mapM_mergeValues floorsRanked
      validateCoverageFloor (coverageItems members')
      fun item hitem => hcoverages.validItems item (hbounds.mem_iff.mpr hitem)
    obtain ⟨normalized, hnormalized, hstrict⟩ := mapM_mergeValues floorsRanked
      validateCoverageFloor (coverageItems members) hcoverages.validItems
    obtain rfl : normalized = metrics := Except.ok.inj (hnormalized.symm.trans hmetrics)
    have hsame : ∀ metric, normalized.lookup metric = metrics'.lookup metric :=
      hstrict.lookup_eq (fun _ _ _ h => h)
        (hstrict'.of_mem_iff fun given => (hbounds.map _).mem_iff.symm)
    obtain ⟨arg, _, harg, -, -, -, htests, -⟩ := hcoverages.shape first' hmem'
    obtain rfl : arg = own' := GoalArg.coverage.inj (harg.symm.trans hfirst')
    refine ⟨_, translateOne_coverage.mpr ⟨?_, htests, metrics', hmetrics', rfl⟩⟩
    obtain ⟨metric, hmetric⟩ := List.exists_mem_of_ne_nil _ hset
    obtain ⟨written, hwritten⟩ := Option.isSome_iff_exists.mp
      (AList.lookup_isSome.mpr (AList.mem_keys.mpr hmetric))
    obtain ⟨value, -, hvalue⟩ := Dict.exists_of_mapM hmetrics hwritten
    rw [hsame] at hvalue
    obtain ⟨given, hgiven, -⟩ := (Dict.lookup_mapM hmetrics').mp hvalue
    refine List.ne_nil_of_mem (a := metric) (AList.mem_keys.mp (AList.lookup_isSome.mp ?_))
    simp [hgiven]

end Booley.Goals
