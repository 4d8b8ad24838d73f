import Booley.Goals.MergeSpec

/-!
# One merged Goal for one list of arguments

The mergers of simulation and review Goals, the specification of `merge` from all mergers,
and what it says of a whole translation that ends in one Goal.
-/
namespace Booley.Goals

open Booley.Lib Booley.TestRuns

variable {floats : FloatArithmetic} {names : Option Checkout} {group : MergeGroup}
  {family : GoalFamily} {members members' : List (Member floats)}

/-! ## Simulation Goals -/

theorem seedFormTag_eq_x {form : SeedForm} : seedFormTag form = "x" ↔ SeedForm.isCount form = true := by
  cases form with
  | unpinned => simp [seedFormTag, SeedForm.isCount]
  | count n => simp [seedFormTag, SeedForm.isCount]
  | pinned seed =>
    have hne : seedFormTag (.pinned seed) ≠ "x" := by
      intro h
      have hhead := congrArg (fun text => text.toList.head?) h
      simp [seedFormTag] at hhead
    simp [hne, SeedForm.isCount]

theorem isCount_canonicalForm (form : SeedForm) (seed : Option Nat) :
    SeedForm.isCount (canonicalForm form seed) = SeedForm.isCount form := by
  cases form <;> cases seed <;> rfl

/-- Selectors of one identity both ask for a number of seeds, or neither does. -/
theorem isCount_of_canonicalIdentity {target other : String} {selector selector' : TestSelector}
    {identity : TestIdentity} (h : canonicalIdentity names target selector = .ok identity)
    (h' : canonicalIdentity names other selector' = .ok identity) :
    SeedForm.isCount selector.seedForm = SeedForm.isCount selector'.seedForm := by
  have htag : ∀ {target : String} {selector : TestSelector},
      canonicalIdentity names target selector = .ok identity →
        (SeedForm.isCount selector.seedForm = true ↔ identity.2.2 = "x") := by
    intro target selector h
    cases names with
    | none =>
      obtain rfl := Except.ok.inj h
      exact seedFormTag_eq_x.symm
    | some checkout =>
      obtain ⟨resolved, hresolved, h⟩ := except_bind_eq_ok.mp h
      obtain rfl := Except.ok.inj h
      rw [seedFormTag_eq_x]
      cases resolved with
      | none => rfl
      | some canonical =>
        have hform : SeedForm.isCount canonical.seedForm = SeedForm.isCount selector.seedForm := by
          unfold Checkout.canonicalSelector at hresolved
          cases hplan : checkout.plan target with
          | none => simp [hplan] at hresolved
          | some plan =>
            simp only [hplan] at hresolved
            obtain ⟨found, -, hfound⟩ := except_bind_eq_ok.mp hresolved
            cases found with
            | none => simp at hfound
            | some base =>
              obtain rfl := Option.some.inj (Except.ok.inj hfound)
              exact isCount_canonicalForm _ _
        simp [hform]
  rw [Bool.eq_iff_iff, htag h, htag h']

theorem selectorCount_of_not_isCount {test : WrittenSelector}
    (h : SeedForm.isCount test.selector.seedForm = false) : selectorCount test = 0 := by
  unfold selectorCount
  cases hform : test.selector.seedForm with
  | count n => simp [hform, SeedForm.isCount] at h
  | _ => rfl

/-- The first of the largest is one of the items, and no item is larger. -/
theorem firstLargest_spec {α : Type} {items : List (α × Nat)} {best : α × Nat}
    (h : firstLargest items = some best) : best ∈ items ∧ ∀ item ∈ items, item.2 ≤ best.2 := by
  induction items generalizing best with
  | nil => simp [firstLargest] at h
  | cons item rest ih =>
    unfold firstLargest at h
    cases hrest : firstLargest rest with
    | none =>
      simp only [hrest, Option.some.injEq] at h
      subst h
      have hempty : rest = [] := by
        cases rest with
        | nil => rfl
        | cons other rest =>
          unfold firstLargest at hrest
          split at hrest
          · cases hrest
          · split_ifs at hrest
      simp [hempty]
    | some other =>
      obtain ⟨hmem, hmax⟩ := ih hrest
      simp only [hrest] at h
      by_cases hle : other.2 ≤ item.2
      · simp only [hle, if_true, Option.some.injEq] at h
        subst h
        constructor
        · simp
        · intro given hgiven
          rcases List.mem_cons.mp hgiven with rfl | hgiven
          · exact le_rfl
          · exact (hmax given hgiven).trans hle
      · simp only [hle, if_false, Option.some.injEq] at h
        subst h
        constructor
        · simp [hmem]
        · intro given hgiven
          rcases List.mem_cons.mp hgiven with rfl | hgiven
          · omega
          · exact hmax given hgiven

theorem firstLargest_isSome {α : Type} {items : List (α × Nat)} (h : items ≠ []) :
    ∃ best, firstLargest items = some best := by
  cases items with
  | nil => exact absurd rfl h
  | cons item rest =>
    unfold firstLargest
    cases firstLargest rest with
    | none => exact ⟨item, rfl⟩
    | some best =>
      by_cases hle : best.2 ≤ item.2
      · exact ⟨item, by simp [hle]⟩
      · exact ⟨best, by simp [hle]⟩

/-- Every member is a Goal over one Target, or over what one selector names. -/
theorem targets_of_inGroup (hgroup : InGroup names group family members)
    {own : TargetGoalArg} {first : Member floats} (hmem : first ∈ members)
    (hfirst : first.arg = .target own) :
    own.family = family ∧
    ((own.test = none ∧ ∀ member ∈ members, ∃ arg, member.arg = .target arg ∧ arg.test = none ∧
        arg.family = family ∧ SameTarget names family arg.target own.target) ∨
      ∃ identity, ∀ member ∈ members, ∃ arg test, member.arg = .target arg ∧
        arg.test = some test ∧ arg.family = family ∧
        canonicalIdentity names arg.target test.selector = .ok identity) := by
  have hfamily : own.family = family := by
    have := hgroup.family first hmem
    rwa [hfirst] at this
  have hshape : ∀ member ∈ members, ∃ arg, member.arg = .target arg ∧ arg.family = family := by
    intro member hmember
    have hmemberFamily := hgroup.family member hmember
    obtain ⟨arg, harg⟩ := exists_target_of_family member.arg (by
      rw [hmemberFamily, ← hfamily]
      obtain hsim | ⟨hlint | helaboration, -⟩ := own.admitted
      · exact .inl hsim
      · exact .inr (.inl hlint)
      · exact .inr (.inr helaboration))
    rw [harg] at hmemberFamily
    exact ⟨arg, harg, hmemberFamily⟩
  refine ⟨hfamily, ?_⟩
  have hshared := hgroup.group first hmem
  have hfirstTranslated := first.translated
  rw [hfirst] at hshared hfirstTranslated
  cases htest : own.test with
  | none =>
    refine .inl ⟨rfl, fun member hmember => ?_⟩
    rw [mergeGroup_wholeTarget htest hfirstTranslated, hfamily] at hshared
    obtain ⟨arg, harg, hargFamily⟩ := hshape member hmember
    have hown := hgroup.group member hmember
    have htranslated := member.translated
    rw [harg] at hown htranslated
    cases htest' : arg.test with
    | none =>
      rw [mergeGroup_wholeTarget htest' htranslated, hargFamily] at hown
      exact ⟨arg, harg, htest', hargFamily,
        sameTarget_of_plainGroup (Except.ok.inj (hown.trans hshared.symm))⟩
    | some test =>
      obtain ⟨identity, -, hselector⟩ := 
        (mergeGroup_of_selector (show oneSelector (.target arg) = some test from htest')).mp hown
      rw [← Except.ok.inj hshared] at hselector
      unfold plainGroup at hselector
      split at hselector
      · split_ifs at hselector
      · cases hselector
  | some test =>
    obtain ⟨identity, -, hidentity⟩ :=
      (mergeGroup_of_selector (show oneSelector (.target own) = some test from htest)).mp hshared
    refine .inr ⟨identity, fun member hmember => ?_⟩
    obtain ⟨arg, harg, hargFamily⟩ := hshape member hmember
    have hown := hgroup.group member hmember
    have htranslated := member.translated
    rw [harg] at hown htranslated
    cases htest' : arg.test with
    | none =>
      rw [mergeGroup_wholeTarget htest' htranslated] at hown
      rw [← Except.ok.inj hown] at hidentity
      unfold plainGroup at hidentity
      split at hidentity
      · split_ifs at hidentity
      · cases hidentity
    | some test' =>
      obtain ⟨other, hother, heq⟩ :=
        (mergeGroup_of_selector (show oneSelector (.target arg) = some test' from htest')).mp hown
      rw [hidentity] at heq
      exact ⟨arg, test', harg, htest', hargFamily, (MergeGroup.selector.inj heq).2 ▸ hother⟩

theorem mem_seedCounts {item : GoalArg × Nat} :
    item ∈ seedCounts members ↔ ∃ member ∈ members, member.arg = item.1 ∧
      ∃ test, oneSelector member.arg = some test ∧ test.selector.seedForm = .count item.2 := by
  simp only [seedCounts, List.mem_filterMap, Option.bind_eq_some_iff]
  constructor
  · rintro ⟨member, hmember, test, htest, hitem⟩
    cases hform : test.selector.seedForm with
    | count n =>
      simp only [hform, Option.some.injEq] at hitem
      subst hitem
      exact ⟨member, hmember, rfl, test, htest, hform⟩
    | unpinned => simp [hform] at hitem
    | pinned seed => simp [hform] at hitem
  · rintro ⟨member, hmember, harg, test, htest, hform⟩
    exact ⟨member, hmember, test, htest, by simp [hform, harg]⟩

/-- The winner of a simulation merge: a member's argument whose count no other exceeds. -/
theorem mergeSimulation_spec {first : Member floats} (hmem : first ∈ members)
    {identity : TestIdentity}
    (hshape : ∀ member ∈ members, ∃ arg test, member.arg = .target arg ∧ arg.test = some test ∧
      arg.family = family ∧ canonicalIdentity names arg.target test.selector = .ok identity) :
    ∃ winner ∈ members, (mergeSimulation first members).1 = winner.arg ∧
      ∀ test, oneSelector winner.arg = some test → ∀ member ∈ members, ∀ test',
        oneSelector member.arg = some test' → selectorCount test' ≤ selectorCount test := by
  have hcount : ∀ member ∈ members, ∀ test, oneSelector member.arg = some test →
      ∀ n, test.selector.seedForm = .count n → (member.arg, n) ∈ seedCounts members := by
    intro member hmember test htest n hform
    exact mem_seedCounts.mpr ⟨member, hmember, rfl, test, htest, hform⟩
  unfold mergeSimulation
  by_cases hfew : (distinct ((seedCounts members).map Prod.snd)).length < 2
  · refine ⟨first, hmem, by simp [hfew], ?_⟩
    intro test htest member hmember test' htest'
    have hequal := length_distinct_le_one_iff.mp (Nat.le_of_lt_succ hfew)
    obtain ⟨arg, own, harg, hown, -, hidentity⟩ := hshape first hmem
    obtain ⟨arg', own', harg', hown', -, hidentity'⟩ := hshape member hmember
    obtain rfl : own = test := by simpa [harg, oneSelector, hown] using htest
    obtain rfl : own' = test' := by simpa [harg', oneSelector, hown'] using htest'
    have hsame := isCount_of_canonicalIdentity hidentity hidentity'
    cases hform' : own'.selector.seedForm with
    | count n' =>
      cases hform : own.selector.seedForm with
      | count n =>
        have hmem₁ := List.mem_map_of_mem (f := Prod.snd) (hcount first hmem own htest n hform)
        have hmem₂ := List.mem_map_of_mem (f := Prod.snd)
          (hcount member hmember own' htest' n' hform')
        have := hequal _ hmem₂ _ hmem₁
        simpa [selectorCount, hform, hform', countOf] using this.le
      | unpinned => simp [hform, hform', SeedForm.isCount] at hsame
      | pinned seed => simp [hform, hform', SeedForm.isCount] at hsame
    | unpinned => simp [selectorCount, hform', countOf]
    | pinned seed => simp [selectorCount, hform', countOf]
  · have hne : seedCounts members ≠ [] := by
      intro hempty
      simp [hempty, distinct] at hfew
    obtain ⟨⟨winner, largest⟩, hlargest⟩ := firstLargest_isSome hne
    obtain ⟨hwinner, hmax⟩ := firstLargest_spec hlargest
    obtain ⟨holder, hholder, harg, test, htest, hform⟩ := mem_seedCounts.mp hwinner
    refine ⟨holder, hholder, by simp [hfew, hlargest, harg], ?_⟩
    intro own hown member hmember test' htest'
    obtain rfl : test = own := Option.some.inj (htest.symm.trans hown)
    cases hform' : test'.selector.seedForm with
    | count n =>
      have := hmax _ (hcount member hmember test' htest' n hform')
      simpa [selectorCount, hform, hform', countOf] using this
    | unpinned => simp [selectorCount, hform', countOf]
    | pinned seed => simp [selectorCount, hform', countOf]

theorem translateOne_target (floats : FloatArithmetic) (arg : TargetGoalArg) :
    ∃ goal, translateOne floats (.target arg) = .ok goal := by
  cases htest : arg.test with
  | none => exact ⟨_, (translateOne_wholeTarget htest).mpr rfl⟩
  | some test => exact ⟨_, (translateOne_test htest).mpr rfl⟩

/-- The merger of lint, elaboration and simulation Goals. -/
def mergeTarget (family : GoalFamily) (first : Member floats) (members : List (Member floats)) :
    GoalArg × List MergeDecision :=
  if family = .sim then mergeSimulation first members else (first.arg, [])

theorem seedCounts_of_wholeTarget (h : ∀ member ∈ members, oneSelector member.arg = none) :
    seedCounts members = [] := by
  rw [List.eq_nil_iff_forall_not_mem]
  intro item hitem
  obtain ⟨member, hmember, -, test, htest, -⟩ := mem_seedCounts.mp hitem
  simp [h member hmember] at htest

theorem mergedOf_target (hgroup : InGroup names group family members) {first : Member floats}
    (hmem : first ∈ members) {own : TargetGoalArg} (hfirst : first.arg = .target own)
    {goal : TranslatedGoal}
    (hgoal : translateOne floats (mergeTarget own.family first members).1 = .ok goal) :
    MergedOf names (memberGoals members) goal := by
  obtain ⟨hfamily, ⟨htest, hshape⟩ | ⟨identity, hshape⟩⟩ := targets_of_inGroup hgroup hmem hfirst
  · have hcounts : seedCounts members = [] := by
      apply seedCounts_of_wholeTarget
      intro member hmember
      obtain ⟨arg, harg, hargTest, -⟩ := hshape member hmember
      simp [harg, oneSelector, hargTest]
    have hwinner : (mergeTarget own.family first members).1 = .target own := by
      unfold mergeTarget mergeSimulation
      by_cases hsim : own.family = .sim
      · simp [hsim, hcounts, distinct, hfirst]
      · simp [hsim, hfirst]
    rw [hwinner, translateOne_wholeTarget htest] at hgoal
    subst hgoal
    have hgoals : ∀ member ∈ memberGoals members, ∃ arg : TargetGoalArg,
        SameTarget names family arg.target own.target ∧
        member = ⟨targetKey family arg.target, family, some arg.target, .wholeTarget,
          [arg.origin]⟩ := by
      intro member hmember
      obtain ⟨given, hgiven, rfl⟩ := List.mem_map.mp hmember
      obtain ⟨arg, harg, hargTest, hargFamily, hsame⟩ := hshape given hgiven
      have htranslated := given.translated
      rw [harg, translateOne_wholeTarget hargTest, hargFamily] at htranslated
      exact ⟨arg, hsame, htranslated⟩
    constructor
    · intro member hmember
      obtain ⟨arg, -, rfl⟩ := hgoals member hmember
      exact hfamily.symm
    · intro member hmember
      obtain ⟨arg, hsame, rfl⟩ := hgoals member hmember
      exact ⟨rfl, by simpa [TranslatedGoal.targetName, hfamily] using hsame⟩
  · have hsim : own.family = .sim := by
      obtain ⟨arg, test, harg, htest, -⟩ := hshape first hmem
      obtain rfl : arg = own := GoalArg.target.inj (harg.symm.trans hfirst)
      obtain hsim | ⟨-, hnone⟩ := arg.admitted
      · exact hsim
      · simp [hnone] at htest
    rw [mergeTarget, if_pos hsim] at hgoal
    obtain ⟨winner, hwinner, hargEq, hmax⟩ := mergeSimulation_spec hmem hshape
    rw [hargEq] at hgoal
    obtain ⟨arg, test, harg, htest, hargFamily, hidentity⟩ := hshape winner hwinner
    rw [harg, translateOne_test htest] at hgoal
    subst hgoal
    have hgoals : ∀ given ∈ members, ∃ (arg : TargetGoalArg) (test : WrittenSelector),
        oneSelector given.arg = some test ∧
        canonicalIdentity names arg.target test.selector = .ok identity ∧
        given.goal = ⟨simulationRunKey arg.target test.selector, family, some arg.target,
          .test test, [arg.origin]⟩ := by
      intro given hgiven
      obtain ⟨arg, test, harg, htest, hargFamily, hidentity⟩ := hshape given hgiven
      have htranslated := given.translated
      rw [harg, translateOne_test htest, hargFamily] at htranslated
      exact ⟨arg, test, by simp [harg, oneSelector, htest], hidentity, htranslated⟩
    have hwinnerTest : oneSelector winner.arg = some test := by simp [harg, oneSelector, htest]
    constructor
    · intro member hmember
      obtain ⟨given, hgiven, rfl⟩ := List.mem_map.mp hmember
      obtain ⟨_, _, -, -, hshaped⟩ := hgoals given hgiven
      rw [hshaped, hargFamily]
    · constructor
      · intro member hmember
        obtain ⟨given, hgiven, rfl⟩ := List.mem_map.mp hmember
        obtain ⟨arg', test', htest', hidentity', hshaped⟩ := hgoals given hgiven
        rw [hshaped]
        exact ⟨test', rfl, hidentity'.trans hidentity.symm,
          hmax test hwinnerTest given hgiven test' htest'⟩
      · refine ⟨winner.goal, List.mem_map_of_mem hwinner, ?_⟩
        obtain ⟨_, test', htest', -, hshaped⟩ := hgoals winner hwinner
        obtain rfl : test = test' := Option.some.inj (hwinnerTest.symm.trans htest')
        rw [hshaped]
        exact ⟨test, rfl, rfl⟩

theorem mergeTarget_perm (hgroup : InGroup names group family members)
    (hperm : members.Perm members') {first first' : Member floats} (hmem : first ∈ members)
    (hmem' : first' ∈ members) {own own' : TargetGoalArg} (hfirst : first.arg = .target own)
    (hfirst' : first'.arg = .target own') :
    MergesAgain floats (mergeTarget own.family first members).1
      (mergeTarget own.family first members).2
      (.ok (mergeTarget own'.family first' members')) := by
  obtain ⟨hfamily, -⟩ := targets_of_inGroup hgroup hmem hfirst
  obtain ⟨hfamily', hcases⟩ := targets_of_inGroup
    (hgroup.of_mem_iff fun _ => hperm.mem_iff.symm) (hperm.mem_iff.mp hmem') hfirst'
  have hcounts : (seedCounts members).Perm (seedCounts members') := hperm.filterMap _
  have hdistinct := (distinct_perm fun n =>
    (hcounts.map Prod.snd).mem_iff (a := n)).length_eq
  have hwinner : ∃ arg, (mergeTarget own'.family first' members').1 = .target arg := by
    unfold mergeTarget mergeSimulation
    by_cases hsim : own'.family = .sim
    · by_cases hfew : (distinct ((seedCounts members').map Prod.snd)).length < 2
      · exact ⟨own', by simp [hsim, hfew, hfirst']⟩
      · cases hlargest : firstLargest (seedCounts members') with
        | none => exact ⟨own', by simp [hsim, hfew, hlargest, hfirst']⟩
        | some best =>
          obtain ⟨member, hmember, harg, -⟩ := mem_seedCounts.mp (firstLargest_spec hlargest).1
          obtain ⟨arg, hshape⟩ : ∃ arg, member.arg = .target arg := by
            obtain ⟨-, hshape⟩ | ⟨_, hshape⟩ := hcases
            · obtain ⟨arg, harg, -⟩ := hshape member hmember
              exact ⟨arg, harg⟩
            · obtain ⟨arg, _, harg, -⟩ := hshape member hmember
              exact ⟨arg, harg⟩
          exact ⟨arg, by simp [hsim, hfew, hlargest, ← harg, hshape]⟩
    · exact ⟨own', by simp [hsim, hfirst']⟩
  refine ⟨(mergeTarget own'.family first' members').1,
    (mergeTarget own'.family first' members').2, rfl, ?_, ?_⟩
  · intro hnone
    unfold mergeTarget mergeSimulation at hnone ⊢
    rw [hfamily'] at hnone
    rw [hfamily]
    by_cases hsim : family = .sim
    · simp only [hsim, if_true] at hnone ⊢
      by_cases hfew : (distinct ((seedCounts members').map Prod.snd)).length < 2
      · simp [hdistinct, hfew]
      · have hne : seedCounts members' ≠ [] := by
          intro hempty
          simp [hempty, distinct] at hfew
        obtain ⟨best, hbest⟩ := firstLargest_isSome hne
        simp [hfew, hbest] at hnone
    · simp [hsim]
  · intro goal _
    obtain ⟨arg, harg⟩ := hwinner
    rw [harg]
    exact translateOne_target floats arg

/-! ## Review Goals -/

theorem mem_reviewsOf {review : ReviewGoalArg} :
    review ∈ reviewsOf members ↔ ∃ member ∈ members, member.arg = .review review := by
  simp only [reviewsOf, List.mem_filterMap]
  constructor
  · rintro ⟨member, hmember, h⟩
    cases harg : member.arg with
    | review arg =>
      obtain rfl : arg = review := by simpa [harg] using h
      exact ⟨member, hmember, harg⟩
    | _ => simp [harg] at h
  · rintro ⟨member, hmember, harg⟩
    exact ⟨member, hmember, by simp [harg]⟩

/-- The settings every review of a merge shares. -/
def SameReviews (members : List (Member floats)) : Prop :=
  ∀ review ∈ reviewsOf members, ∀ other ∈ reviewsOf members,
    review.spec = other.spec ∧ review.target = other.target ∧ review.paths = other.paths

theorem mergeReview_eq_ok {first : Member floats} {arg : GoalArg} {decisions : List MergeDecision} :
    mergeReview first members = .ok (arg, decisions) ↔
      SameReviews members ∧
      (match (reviewsOf members).filter (·.verdict = .clean),
          (reviewsOf members).filter (·.verdict = .done) with
        | winner :: _, _ :: _ => (GoalArg.review winner,
            [MergeDecision.cleanOverDone
              (((reviewsOf members).filter (·.verdict = .clean)).map (·.origin))
              (((reviewsOf members).filter (·.verdict = .done)).map (·.origin))])
        | _, _ => (first.arg, [])) = (arg, decisions) := by
  have hsettings : (∀ setting ∈ (reviewsOf members).map ReviewGoalArg.spec,
        ∀ other ∈ (reviewsOf members).map ReviewGoalArg.spec, setting = other) ∧
      (∀ setting ∈ (reviewsOf members).map ReviewGoalArg.target,
        ∀ other ∈ (reviewsOf members).map ReviewGoalArg.target, setting = other) ∧
      (∀ setting ∈ (reviewsOf members).map ReviewGoalArg.paths,
        ∀ other ∈ (reviewsOf members).map ReviewGoalArg.paths, setting = other) ↔
      SameReviews members := by
    simp only [List.forall_mem_map, SameReviews]
    constructor
    · rintro ⟨hspec, htarget, hpaths⟩ review hreview other hother
      exact ⟨hspec review hreview other hother, htarget review hreview other hother,
        hpaths review hreview other hother⟩
    · intro h
      exact ⟨fun review hreview other hother => (h review hreview other hother).1,
        fun review hreview other hother => (h review hreview other hother).2.1,
        fun review hreview other hother => (h review hreview other hother).2.2⟩
  simp only [mergeReview, except_bind_eq_ok]
  constructor
  · rintro ⟨⟨⟩, hspec, ⟨⟩, htarget, ⟨⟩, hpaths, h⟩
    refine ⟨hsettings.mp ⟨requireEqual_eq_ok.mp hspec, requireEqual_eq_ok.mp htarget,
      requireEqual_eq_ok.mp hpaths⟩, ?_⟩
    cases hclean : (reviewsOf members).filter (·.verdict = .clean) <;>
      cases hdone : (reviewsOf members).filter (·.verdict = .done) <;>
      simp only [hclean, hdone] at h ⊢ <;> exact Except.ok.inj h
  · rintro ⟨hsame, h⟩
    obtain ⟨hspec, htarget, hpaths⟩ := hsettings.mpr hsame
    refine ⟨(), requireEqual_eq_ok.mpr hspec, (), requireEqual_eq_ok.mpr htarget, (),
      requireEqual_eq_ok.mpr hpaths, ?_⟩
    cases hclean : (reviewsOf members).filter (·.verdict = .clean) <;>
      cases hdone : (reviewsOf members).filter (·.verdict = .done) <;>
      simp only [hclean, hdone] at h ⊢ <;> exact congrArg Except.ok h

/-- The reviews of one group are of one kind. -/
theorem reviews_of_inGroup (hgroup : InGroup names group .review members)
    {own : ReviewGoalArg} {first : Member floats} (hmem : first ∈ members)
    (hfirst : first.arg = .review own) :
    ∀ member ∈ members, ∃ review, member.arg = .review review ∧ review.review = own.review ∧
      member.goal = ⟨"review_" ++ reviewName review.review ++ "_" ++ verdictName review.verdict,
        .review, none, .review review.review review.verdict review.spec review.target review.paths,
        [review.origin]⟩ := by
  intro member hmember
  obtain ⟨review, hreview⟩ := exists_arg_of_family.2.2.2 (hgroup.family member hmember)
  have hown := hgroup.group member hmember
  have hshared := hgroup.group first hmem
  have htranslated := member.translated
  rw [hreview] at hown htranslated
  rw [hfirst] at hshared
  refine ⟨review, hreview, ?_, translateOne_review.mp htranslated⟩
  have hnamed := MergeGroup.named.inj (Except.ok.inj (hown.trans hshared.symm))
  have hlist := congrArg String.toList hnamed
  rw [String.toList_append, String.toList_append, List.append_cancel_left_eq] at hlist
  have hname : reviewName review.review = reviewName own.review := String.toList_inj.mp hlist
  cases hkind : review.review <;> cases hkind' : own.review <;>
    simp [hkind, hkind', reviewName] at hname ⊢

theorem mergedOf_review (hgroup : InGroup names group .review members)
    {first : Member floats} (hmem : first ∈ members) {own : ReviewGoalArg}
    (hfirst : first.arg = .review own) {arg : GoalArg} {decisions : List MergeDecision}
    (h : mergeReview first members = .ok (arg, decisions)) {goal : TranslatedGoal}
    (hgoal : translateOne floats arg = .ok goal) : MergedOf names (memberGoals members) goal := by
  have hreviews := reviews_of_inGroup hgroup hmem hfirst
  obtain ⟨hsame, hwinner⟩ := mergeReview_eq_ok.mp h
  -- a member's review whose verdict is clean as soon as one of them is
  obtain ⟨winner, hwinnerMem, rfl, hclean⟩ : ∃ winner ∈ reviewsOf members, arg = .review winner ∧
      ∀ review ∈ reviewsOf members, review.verdict = .clean → winner.verdict = .clean := by
    have hown : own ∈ reviewsOf members := mem_reviewsOf.mpr ⟨first, hmem, hfirst⟩
    cases hcleans : (reviewsOf members).filter (·.verdict = .clean) with
    | nil =>
      simp only [hcleans, Prod.mk.injEq] at hwinner
      refine ⟨own, hown, by rw [← hwinner.1, hfirst], ?_⟩
      intro review hreview hverdict
      have := List.filter_eq_nil_iff.mp hcleans review hreview
      simp [hverdict] at this
    | cons winner rest =>
      have hwinnerIn : winner ∈ (reviewsOf members).filter (·.verdict = .clean) := by
        simp [hcleans]
      obtain ⟨hin, hverdict⟩ := List.mem_filter.mp hwinnerIn
      cases hdones : (reviewsOf members).filter (·.verdict = .done) with
      | nil =>
        simp only [hcleans, hdones, Prod.mk.injEq] at hwinner
        refine ⟨own, hown, by rw [← hwinner.1, hfirst], ?_⟩
        intro _ _ _
        have := List.filter_eq_nil_iff.mp hdones own hown
        cases hownVerdict : own.verdict with
        | clean => rfl
        | done => simp [hownVerdict] at this
      | cons _ _ =>
        simp only [hcleans, hdones, Prod.mk.injEq] at hwinner
        exact ⟨winner, hin, hwinner.1.symm, fun _ _ _ => by simpa using hverdict⟩
  rw [translateOne_review] at hgoal
  subst hgoal
  obtain ⟨holder, hholder, hholderArg⟩ := mem_reviewsOf.mp hwinnerMem
  obtain ⟨review, hreview, hkind, hshape⟩ := hreviews holder hholder
  obtain rfl : review = winner := GoalArg.review.inj (hreview.symm.trans hholderArg)
  constructor
  · intro member hmember
    obtain ⟨given, hgiven, rfl⟩ := List.mem_map.mp hmember
    obtain ⟨_, -, -, hshaped⟩ := hreviews given hgiven
    rw [hshaped]
  · constructor
    · intro member hmember
      obtain ⟨given, hgiven, rfl⟩ := List.mem_map.mp hmember
      obtain ⟨review', hreview', hkind', hshaped⟩ := hreviews given hgiven
      have hin := mem_reviewsOf.mpr ⟨given, hgiven, hreview'⟩
      obtain ⟨hspec, htarget, hpaths⟩ := hsame review' hin review hwinnerMem
      rw [hshaped, hkind', hspec, htarget, hpaths, ← hkind]
      exact ⟨review'.verdict, rfl, hclean review' hin⟩
    · exact ⟨holder.goal, List.mem_map_of_mem hholder, by rw [hshape]⟩

theorem mergeReview_perm (hgroup : InGroup names group .review members)
    (hperm : members.Perm members') {first first' : Member floats} (hmem : first ∈ members)
    (hmem' : first' ∈ members) {own : ReviewGoalArg} (hfirst : first.arg = .review own)
    {arg : GoalArg} {decisions : List MergeDecision}
    (h : mergeReview first members = .ok (arg, decisions)) :
    MergesAgain floats arg decisions (mergeReview first' members') := by
  obtain ⟨hsame, hwinner⟩ := mergeReview_eq_ok.mp h
  have hreviews : (reviewsOf members).Perm (reviewsOf members') := hperm.filterMap _
  have hsame' : SameReviews members' := fun review hreview other hother =>
    hsame review (hreviews.mem_iff.mpr hreview) other (hreviews.mem_iff.mpr hother)
  have hcleans := hreviews.filter fun review => review.verdict = .clean
  have hdones := hreviews.filter fun review => review.verdict = .done
  have htranslates : ∀ review, ∃ goal, translateOne floats (.review review) = .ok goal :=
    fun review => ⟨_, translateOne_review.mpr rfl⟩
  obtain ⟨review', hreview', -⟩ := reviews_of_inGroup hgroup hmem hfirst first' hmem'
  refine ⟨_, _, mergeReview_eq_ok.mpr ⟨hsame', rfl⟩, ?_, ?_⟩
  · intro hnone
    cases hclean : (reviewsOf members).filter (·.verdict = .clean) with
    | nil =>
      simp only [hclean, Prod.mk.injEq] at hwinner
      exact hwinner.2.symm
    | cons clean cleans =>
      cases hdone : (reviewsOf members).filter (·.verdict = .done) with
      | nil =>
        simp only [hclean, hdone, Prod.mk.injEq] at hwinner
        exact hwinner.2.symm
      | cons done dones =>
        rw [hclean] at hcleans
        rw [hdone] at hdones
        obtain ⟨clean', cleans', hclean'⟩ := List.exists_cons_of_ne_nil
          (fun hnil => by simp [hnil] at hcleans :
            (reviewsOf members').filter (·.verdict = .clean) ≠ [])
        obtain ⟨done', dones', hdone'⟩ := List.exists_cons_of_ne_nil
          (fun hnil => by simp [hnil] at hdones :
            (reviewsOf members').filter (·.verdict = .done) ≠ [])
        simp [hclean', hdone'] at hnone
  · intro goal _
    split
    · exact htranslates _
    · rw [hreview']
      exact htranslates _

end Booley.Goals
