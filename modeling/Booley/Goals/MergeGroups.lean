import Booley.Goals.MergedGoals

/-!
# The members of a merge group

What a translated Goal looks like for each shape of argument, and what the members of one
group have in common.
-/
namespace Booley.Goals

open Booley.Lib Booley.TestRuns

variable {floats : FloatArithmetic} {names : Option Checkout}

/-! ## One translated argument -/

theorem translateOne_implementation {arg : ImplementationGoalArg} {goal : TranslatedGoal} :
    translateOne floats (.implementation arg) = .ok goal ↔
      ∃ thresholds, validateCriterionParams floats arg.family arg.thresholds = .ok thresholds ∧
        (arg.baseline.isSome = true → hasRelativeQorThreshold thresholds = true) ∧
        goal = ⟨targetKey arg.family arg.target, arg.family, some arg.target,
          .implementation thresholds arg.baseline, [arg.origin]⟩ := by
  simp only [translateOne, except_bind_eq_ok]
  refine exists_congr fun thresholds => and_congr_right fun _ => ?_
  by_cases hrefused : (arg.baseline.isSome && !hasRelativeQorThreshold thresholds) = true
  · have hnot : ¬ (arg.baseline.isSome = true → hasRelativeQorThreshold thresholds = true) := by
      simpa using hrefused
    simp only [hrefused, if_true, reduceCtorEq, hnot, false_and]
  · have hread : arg.baseline.isSome = true → hasRelativeQorThreshold thresholds = true := by
      simpa using hrefused
    rw [if_neg hrefused, and_iff_right hread, Except.ok.injEq, eq_comm]

theorem translateOne_cycleCount {arg : CycleCountGoalArg} {goal : TranslatedGoal} :
    translateOne floats (.cycleCount arg) = .ok goal ↔
      arg.thresholds.keys ≠ [] ∧
      ∃ thresholds, validateCriterionParams floats .cycleCount arg.thresholds = .ok thresholds ∧
        goal = ⟨cycleCountCriterionKey arg.target arg.test.text, .cycleCount, some arg.target,
          .cycleCount arg.target arg.test thresholds, [arg.origin]⟩ := by
  by_cases hempty : arg.thresholds.keys = []
  · simp [translateOne, hempty]
  · simp only [translateOne, hempty, if_false, except_bind_eq_ok, ne_eq, not_false_eq_true,
      true_and, Except.ok.injEq, @eq_comm _ goal]

theorem translateOne_coverage {arg : CoverageGoalArg} {goal : TranslatedGoal} :
    translateOne floats (.coverage arg) = .ok goal ↔
      arg.metrics.keys ≠ [] ∧ validateCoverageTests arg.tests = .ok () ∧
      ∃ metrics, Dict.mapM validateCoverageFloor arg.metrics = .ok metrics ∧
        goal = ⟨targetKey .coverage arg.target, .coverage, some arg.target,
          .coverage arg.target metrics arg.tests, [arg.origin]⟩ := by
  by_cases hempty : arg.metrics.keys = []
  · simp [translateOne, hempty]
  · simp only [translateOne, hempty, if_false, except_bind_eq_ok, ne_eq, not_false_eq_true,
      true_and]
    constructor
    · rintro ⟨metrics, hmetrics, ⟨⟩, htests, hgoal⟩
      exact ⟨htests, metrics, hmetrics, (Except.ok.inj hgoal).symm⟩
    · rintro ⟨htests, metrics, hmetrics, rfl⟩
      exact ⟨metrics, hmetrics, (), htests, rfl⟩

theorem translateOne_mutation {arg : MutationGoalArg} {goal : TranslatedGoal} :
    translateOne floats (.mutation arg) = .ok goal ↔
      ∃ params, validateMutationParams arg = .ok params ∧
        goal = ⟨targetKey .mutation arg.target, .mutation, some arg.target, .mutation params,
          [arg.origin]⟩ := by
  simp only [translateOne, except_bind_eq_ok, Except.ok.injEq, @eq_comm _ goal]

theorem translateOne_review {arg : ReviewGoalArg} {goal : TranslatedGoal} :
    translateOne floats (.review arg) = .ok goal ↔
      goal = ⟨"review_" ++ reviewName arg.review ++ "_" ++ verdictName arg.verdict, .review, none,
        .review arg.review arg.verdict arg.spec arg.target arg.paths, [arg.origin]⟩ := by
  simp only [translateOne, Except.ok.injEq, eq_comm]

theorem translateOne_test {arg : TargetGoalArg} {test : WrittenSelector}
    (htest : arg.test = some test) {goal : TranslatedGoal} :
    translateOne floats (.target arg) = .ok goal ↔
      goal = ⟨simulationRunKey arg.target test.selector, arg.family, some arg.target, .test test,
        [arg.origin]⟩ := by
  simp only [translateOne, htest, Except.ok.injEq, eq_comm]

theorem translateOne_wholeTarget {arg : TargetGoalArg} (htest : arg.test = none)
    {goal : TranslatedGoal} :
    translateOne floats (.target arg) = .ok goal ↔
      goal = ⟨targetKey arg.family arg.target, arg.family, some arg.target, .wholeTarget,
        [arg.origin]⟩ := by
  simp only [translateOne, htest, Except.ok.injEq, eq_comm]

/-! ## Members of one group -/

/-- The Goals of some members. -/
def memberGoals (members : List (Member floats)) : List TranslatedGoal :=
  members.map Member.goal

/-- Members of one family in one merge group. -/
structure InGroup (names : Option Checkout) (group : MergeGroup) (family : GoalFamily)
    (members : List (Member floats)) : Prop where
  group : ∀ member ∈ members, mergeGroup names member.arg member.goal = .ok group
  family : ∀ member ∈ members, member.arg.family = family

theorem InGroup.of_mem_iff {group : MergeGroup} {family : GoalFamily}
    {members members' : List (Member floats)}
    (hmem : ∀ member, member ∈ members' ↔ member ∈ members)
    (h : InGroup names group family members) : InGroup names group family members' where
  group member hmember := h.group member ((hmem member).mp hmember)
  family member hmember := h.family member ((hmem member).mp hmember)

theorem mergeGroup_of_selector {arg : GoalArg} {goal : TranslatedGoal} {test : WrittenSelector}
    (htest : oneSelector arg = some test) {group : MergeGroup} :
    mergeGroup names arg goal = .ok group ↔
      ∃ identity, canonicalIdentity names (argTarget arg) test.selector = .ok identity ∧
        group = .selector arg.family identity := by
  cases arg with
  | target arg => simp only [mergeGroup, htest, except_bind_eq_ok, Except.ok.injEq, @eq_comm _ group]
  | cycleCount arg => simp only [mergeGroup, htest, except_bind_eq_ok, Except.ok.injEq, @eq_comm _ group]
  | _ => simp [oneSelector] at htest

/-- The group of a Goal that names no selector. -/
def plainGroup (names : Option Checkout) (family : GoalFamily) (target : String) : MergeGroup :=
  match names with
  | some checkout =>
    if family ∈ testRunFamilies then .target family (checkout.identity target)
    else .named (targetKey family target)
  | none => .named (targetKey family target)

/-- One plain group is of one Target. -/
theorem sameTarget_of_plainGroup {family : GoalFamily} {target other : String}
    (h : plainGroup names family target = plainGroup names family other) :
    SameTarget names family target other := by
  have hkey : ∀ {target other : String},
      MergeGroup.named (targetKey family target) = .named (targetKey family other) →
        target = other := by
    intro target other heq
    have heq' : targetKey family target = targetKey family other := MergeGroup.named.inj heq
    have hlist := congrArg String.toList heq'
    simp only [targetKey, String.toList_append, List.append_assoc,
      List.append_cancel_left_eq] at hlist
    exact String.toList_inj.mp hlist
  unfold SameTarget
  cases names with
  | none =>
    obtain rfl := hkey (by simpa [plainGroup] using h)
    simp
  | some checkout =>
    by_cases hfamily : family ∈ testRunFamilies
    · simpa [plainGroup, hfamily, identityOf] using h
    · have := hkey (by simpa [plainGroup, hfamily] using h)
      simpa [hfamily] using this

theorem mergeGroup_wholeTarget {arg : TargetGoalArg} (htest : arg.test = none)
    {goal : TranslatedGoal} (h : translateOne floats (.target arg) = .ok goal) :
    mergeGroup names (.target arg) goal = .ok (plainGroup names arg.family arg.target) := by
  rw [translateOne_wholeTarget htest] at h
  subst h
  cases names with
  | none => simp [mergeGroup, oneSelector, htest, plainGroup]
  | some checkout =>
    by_cases hfamily : arg.family ∈ testRunFamilies
    · simp [mergeGroup, oneSelector, htest, plainGroup, hfamily, GoalArg.family]
    · simp [mergeGroup, oneSelector, htest, plainGroup, hfamily]

theorem mergeGroup_implementation {arg : ImplementationGoalArg} {goal : TranslatedGoal}
    (h : translateOne floats (.implementation arg) = .ok goal) :
    mergeGroup names (.implementation arg) goal = .ok (plainGroup names arg.family arg.target) := by
  obtain ⟨_, -, -, rfl⟩ := translateOne_implementation.mp h
  cases names with
  | none => simp [mergeGroup, oneSelector, plainGroup]
  | some checkout =>
    by_cases hfamily : arg.family ∈ testRunFamilies
    · simp [mergeGroup, oneSelector, plainGroup, hfamily, GoalArg.family]
    · simp [mergeGroup, oneSelector, plainGroup, hfamily]

theorem mergeGroup_coverage {arg : CoverageGoalArg} {goal : TranslatedGoal}
    (h : translateOne floats (.coverage arg) = .ok goal) :
    mergeGroup names (.coverage arg) goal = .ok (plainGroup names .coverage arg.target) := by
  obtain ⟨-, -, _, -, rfl⟩ := translateOne_coverage.mp h
  cases names with
  | none => simp [mergeGroup, oneSelector, plainGroup]
  | some checkout => simp [mergeGroup, oneSelector, plainGroup, testRunFamilies, GoalArg.family]

theorem mergeGroup_mutation {arg : MutationGoalArg} {goal : TranslatedGoal}
    (h : translateOne floats (.mutation arg) = .ok goal) :
    mergeGroup names (.mutation arg) goal = .ok (plainGroup names .mutation arg.target) := by
  obtain ⟨_, -, rfl⟩ := translateOne_mutation.mp h
  cases names with
  | none => simp [mergeGroup, oneSelector, plainGroup]
  | some checkout => simp [mergeGroup, oneSelector, plainGroup, testRunFamilies]

end Booley.Goals
