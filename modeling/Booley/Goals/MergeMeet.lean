import Booley.Goals.GoalEvidence

/-!
# Merged Goals as meets

Evidence that satisfies a merged Goal satisfies every Goal it was merged from, as long as no
implied mutation floor was dropped in the merge, and the merged Goal does not depend on the
order of the Goals up to key and spelling.
-/
namespace Booley.Goals

open Booley.Lib Booley.TestRuns

variable {floats : FloatArithmetic} {names : Option Checkout} {evidence : GoalEvidence}

/-! ## Test Runs -/

/-- What is satisfied by the runs of a stricter selector satisfies those of a weaker one. -/
theorem requiredRuns_of_sameTest {target other : String} {test test' : WrittenSelector}
    {identity : TestIdentity}
    (h : canonicalIdentity names target test.selector = .ok identity)
    (h' : canonicalIdentity names other test'.selector = .ok identity)
    (hcount : selectorCount test' ≤ selectorCount test) {runs : List TestRun}
    (hruns : evidence.requiredRuns names target test = some runs) :
    identityOf names target = identityOf names other ∧
      ∃ runs', evidence.requiredRuns names other test' = some runs' ∧
        (∀ run ∈ runs', run ∈ runs) ∧ (runs ≠ [] → runs' ≠ []) ∧
        (SeedForm.isCount test'.selector.seedForm = false → runs' = runs) := by
  obtain ⟨hvalid, -, -⟩ := parseTestSelector_valid test.parsed
  obtain ⟨hvalid', -, hpositive⟩ := parseTestSelector_valid test'.parsed
  obtain ⟨htarget, hplan, hsame⟩ := sameButCount_of_canonicalIdentity
    hvalid hvalid' h h'
  refine ⟨htarget, ?_⟩
  unfold GoalEvidence.requiredRuns at hruns ⊢
  rw [← hplan]
  cases hfound : planFor names evidence.laterPlan target test.selector with
  | none => simp [hfound] at hruns
  | some plan =>
    have hboth := hsame plan hfound
    rw [hfound] at hruns
    simp only [Option.bind_eq_bind, Option.bind_some] at hruns ⊢
    rw [← htarget, ← hboth.test]
    obtain heq | ⟨variant, n, m, hform, hform', hleft, hright⟩ := hboth.runs
      (evidence.drawnSeeds (identityOf names target) test.selector.test)
    · rw [← heq]
      exact ⟨runs, hruns, fun _ hrun => hrun, fun hne => hne, fun _ => rfl⟩
    · rw [hleft] at hruns
      have hnamed : namedRuns plan (evidence.drawnSeeds (identityOf names target)
          test.selector.test) ⟨test.selector.test, variant, .count n⟩ = .ok (some runs) := by
        split at hruns
        · rename_i found hok
          rw [hok, hruns]
        · cases hruns
      have hle : m ≤ n := by simpa [selectorCount, hform, hform', countOf] using hcount
      have hm : m ≠ 0 := fun hzero => hpositive (by rw [hform', hzero])
      obtain ⟨htake, hlength⟩ := namedRuns_take hle hnamed
      rw [hright, htake]
      refine ⟨runs.take m, rfl, fun _ hrun => List.mem_of_mem_take hrun, fun hne hnil => ?_, ?_⟩
      · rcases List.take_eq_nil_iff.mp hnil with hzero | hempty
        · exact hm hzero
        · exact hne hempty
      · intro hcount'
        simp [hform', SeedForm.isCount] at hcount'

theorem runsPassed_of_subset [Digests] {target other : String}
    (htarget : identityOf names target = identityOf names other) {runs runs' : List TestRun}
    (hsub : ∀ run ∈ runs', run ∈ runs) (hne : runs ≠ [] → runs' ≠ [])
    (h : evidence.runsPassed names target runs = true) :
    evidence.runsPassed names other runs' = true := by
  rw [runsPassed_iff_of_evidence] at h ⊢
  rw [← htarget]
  exact ⟨hne h.1, fun run hrun => h.2 run (hsub run hrun)⟩

/-! ## Members and their merged Goal -/

/-- What the parameters of a translated Goal say of its argument. -/
theorem Member.shape (member : Member floats) :
    match member.goal.params with
    | .wholeTarget => member.goal.family = .sim ∨ member.goal.family ∉ testRunFamilies
    | .test test => oneSelector member.arg = some test ∧
        argTarget member.arg = member.goal.targetName
    | .cycleCount target test _ => oneSelector member.arg = some test ∧
        argTarget member.arg = target ∧ SeedForm.isCount test.selector.seedForm = false
    | .mutation params => ∃ arg, member.arg = .mutation arg ∧
        validateMutationParams arg = .ok params
    | _ => True := by
  have htranslated := member.translated
  cases harg : member.arg with
  | target arg =>
    rw [harg] at htranslated
    cases htest : arg.test with
    | none =>
      rw [(translateOne_wholeTarget htest).mp htranslated]
      obtain hsim | ⟨hlint | helaboration, -⟩ := arg.admitted
      · exact .inl hsim
      · exact .inr (by simp [hlint, testRunFamilies])
      · exact .inr (by simp [helaboration, testRunFamilies])
    | some test =>
      simp [(translateOne_test htest).mp htranslated, oneSelector, htest, argTarget,
        TranslatedGoal.targetName]
  | implementation arg =>
    rw [harg] at htranslated
    obtain ⟨_, -, -, hgoal⟩ := translateOne_implementation.mp htranslated
    simp [hgoal]
  | cycleCount arg =>
    rw [harg] at htranslated
    obtain ⟨-, _, -, hgoal⟩ := translateOne_cycleCount.mp htranslated
    simp [hgoal, oneSelector, argTarget, arg.oneRun]
  | coverage arg =>
    rw [harg] at htranslated
    obtain ⟨-, -, _, -, hgoal⟩ := translateOne_coverage.mp htranslated
    simp [hgoal]
  | mutation arg =>
    rw [harg] at htranslated
    obtain ⟨params, hparams, hgoal⟩ := translateOne_mutation.mp htranslated
    simp [hgoal, hparams]
  | review arg =>
    rw [harg] at htranslated
    simp [translateOne_review.mp htranslated]

variable {group : MergeGroup} {members : List (Member floats)} {goal : TranslatedGoal}

/-- Most mutants a run of a Goal may create: 25 when their number is derived. -/
def mostMutants (params : MutationParams) : Nat :=
  if params.auto then 25 else params.total.getD 10

theorem mutantCount_le (params : MutationParams) (report : MutationReport) :
    mutantCount params report ≤ mostMutants params := by
  unfold mutantCount mostMutants
  split_ifs
  · exact autoCount_le report
  · exact le_rfl

/-- Every bound that is met is met by its weaker values. -/
theorem thresholds_weaken {given : List (Dict ThresholdParam Rat)} {chosen values :
    Dict ThresholdParam Rat} (hstrict : StrictestOf strictness given chosen)
    (hmem : values ∈ given) {holds weaker : ThresholdParam → Rat → Bool}
    (hweaken : ∀ param strict weak, values.lookup param = some weak →
      strictness param weak ≤ strictness param strict →
        holds param strict = true → weaker param weak = true)
    (h : allHold chosen holds = true) : allHold values weaker = true := by
  rw [allHold_iff] at h ⊢
  intro param weak hweak
  obtain ⟨strict, hsome, hle⟩ := hstrict.exists_of_lookup hmem hweak
  exact hweaken param strict weak hweak hle (h param strict hsome)

/-- Evidence that satisfies a merged Goal satisfies its members, mutation Goals apart. -/
theorem satisfies_of_mergedOf [Digests]
    (hgroup : ∀ member ∈ members, mergeGroup names member.arg member.goal = .ok group)
    (hmerged : MergedOf names (memberGoals members) goal)
    (hmutation : ∀ params, goal.params ≠ .mutation params)
    (hsat : evidence.satisfies floats names goal = true) {member : Member floats}
    (hmember : member ∈ members) : evidence.satisfies floats names member.goal = true := by
  have hmem : member.goal ∈ memberGoals members := List.mem_map_of_mem hmember
  have hfamily := hmerged.family member.goal hmem
  have hparams := hmerged.params
  have hshape := member.shape
  unfold MergedParams at hparams
  unfold GoalEvidence.satisfies at hsat ⊢
  cases hgoal : goal.params with
  | wholeTarget =>
    simp only [hgoal] at hparams hsat
    obtain ⟨hown, hsame⟩ := hparams member.goal hmem
    simp only [hown, hfamily] at hshape ⊢
    unfold SameTarget at hsame
    by_cases hsim : goal.family = .sim
    · have hin : goal.family ∈ testRunFamilies := by simp [hsim, testRunFamilies]
      rw [if_pos hin] at hsame
      rw [if_pos hsim] at hsat ⊢
      rw [hsame]
      exact runsPassed_of_subset hsame.symm (fun _ hrun => hrun) (fun hne => hne) hsat
    · rw [if_neg hsim] at hsat ⊢
      have hplain : goal.family ∉ testRunFamilies := hshape.resolve_left hsim
      rw [if_neg hplain] at hsame
      rw [hsame]
      exact hsat
  | test test =>
    simp only [hgoal] at hparams hsat
    obtain ⟨test', hown, hsame, hcount⟩ := hparams.1 member.goal hmem
    simp only [hown] at hshape ⊢
    obtain ⟨hone, htarget⟩ := hshape
    obtain ⟨identity, hidentity, -⟩ := (mergeGroup_of_selector hone).mp (hgroup member hmember)
    rw [htarget] at hidentity
    obtain ⟨runs, hruns, hpassed⟩ := (Option.any_eq_true _ _).mp hsat
    obtain ⟨hidentities, runs', hruns', hsub, hne, -⟩ :=
      requiredRuns_of_sameTest (hsame.symm.trans hidentity) hidentity hcount hruns
    rw [hruns']
    exact runsPassed_of_subset hidentities hsub hne hpassed
  | implementation thresholds baseline =>
    simp only [hgoal] at hparams hsat
    obtain ⟨hall, hstrict, -, -⟩ := hparams
    obtain ⟨htarget, others, baseline', hown, hbaseline⟩ := hall member.goal hmem
    simp only [hown, hfamily, htarget, Bool.and_eq_true] at hsat ⊢
    refine ⟨hsat.1, thresholds_weaken hstrict ?_ ?_ hsat.2⟩
    · exact List.mem_filterMap.mpr ⟨member.goal, hmem, by simp [TranslatedGoal.thresholds, hown]⟩
    · intro param strict weak hweak hle hpass
      have hpassWeak := checkSingleThreshold_weaken hle hpass
      by_cases hrelative : isRelativeQor param = true
      · have hreads : hasRelativeQorThreshold others = true :=
          hasRelativeQorThreshold_iff.mpr ⟨param, hrelative, by simp [hweak]⟩
        rwa [hbaseline hreads]
      · rw [← hpassWeak]
        exact (checkSingleThreshold_baseline (by simpa using hrelative) weak
          (evidence.implementationOf goal.family goal.targetName _) _).symm
  | cycleCount target test thresholds =>
    simp only [hgoal] at hparams hsat
    obtain ⟨hall, hstrict⟩ := hparams
    obtain ⟨target', test', others, hown, hsame⟩ := hall member.goal hmem
    simp only [hown] at hshape ⊢
    obtain ⟨hone, htarget, hsingle⟩ := hshape
    obtain ⟨identity, hidentity, -⟩ := (mergeGroup_of_selector hone).mp (hgroup member hmember)
    rw [htarget] at hidentity
    obtain ⟨runs, hruns, hpassed⟩ := (Option.any_eq_true _ _).mp hsat
    have hcount : selectorCount test' ≤ selectorCount test := by
      rw [selectorCount_of_not_isCount hsingle]
      omega
    obtain ⟨hidentities, runs', hruns', -, -, hruns_eq⟩ :=
      requiredRuns_of_sameTest (hsame.symm.trans hidentity) hidentity hcount hruns
    obtain rfl := hruns_eq hsingle
    simp only [hruns', Option.any_some, Bool.and_eq_true, List.all_eq_true] at hpassed ⊢
    refine ⟨runsPassed_of_subset hidentities (fun _ hrun => hrun) (fun hne => hne) hpassed.1, ?_⟩
    intro run hrun
    refine thresholds_weaken hstrict ?_ ?_ (hpassed.2 run hrun)
    · exact List.mem_filterMap.mpr ⟨member.goal, hmem, by simp [TranslatedGoal.thresholds, hown]⟩
    · intro param strict weak _ hle hpass
      rw [← hidentities]
      exact evaluateCycleThreshold_weaken hle hpass
  | coverage target metrics tests =>
    simp only [hgoal] at hparams hsat
    obtain ⟨hall, hstrict⟩ := hparams
    obtain ⟨target', others, tests', hown, hidentity, hkey⟩ := hall member.goal hmem
    simp only [hown, hkey, hidentity]
    cases hselection : coverageTestsKey names target tests with
    | error reason => simp [hselection] at hsat
    | ok key =>
      simp only [hselection, Bool.and_eq_true] at hsat ⊢
      refine ⟨hsat.1, ?_⟩
      have hfloors := hsat.2
      rw [allHold_iff] at hfloors ⊢
      intro metric weak hweak
      have hgiven : others ∈ (memberGoals members).filterMap TranslatedGoal.floors :=
        List.mem_filterMap.mpr ⟨member.goal, hmem, by simp [TranslatedGoal.floors, hown]⟩
      obtain ⟨strict, hsome, hle⟩ := hstrict.exists_of_lookup hgiven hweak
      exact floorMet_weaken hle (hfloors metric strict hsome)
  | mutation params => exact absurd hgoal (hmutation params)
  | review review verdict spec target paths =>
    simp only [hgoal] at hparams hsat
    obtain ⟨verdict', hown, hclean⟩ := hparams.1 member.goal hmem
    simp only [hown, Bool.and_eq_true, Bool.or_eq_true, decide_eq_true_eq] at hsat ⊢
    refine ⟨hsat.1, ?_⟩
    cases verdict' with
    | done => exact .inl rfl
    | clean =>
      rcases hsat.2 with hdone | hopen
      · rw [hclean rfl] at hdone
        cases hdone
      · exact .inr hopen

/-! ## Mutation floors -/

/-- A mutation Goal without a floor stands among ones with a floor, and every floor is below
the most mutants a run may create, the floor it implies. -/
def ImpliedFloorDropped (args : List GoalArg) : Prop :=
  (∃ arg, .mutation arg ∈ args ∧ arg.minDetected = none) ∧
  (∃ arg, .mutation arg ∈ args ∧ arg.minDetected ≠ none) ∧
  ∀ arg params floor, .mutation arg ∈ args → validateMutationParams arg = .ok params →
    params.minDetected = some floor → floor < mostMutants params

/-- The members of a merged mutation Goal: their arguments, and what they share. -/
theorem mutation_of_mergedOf (hmerged : MergedOf names (memberGoals members) goal)
    {params : MutationParams} (hgoal : goal.params = .mutation params) {member : Member floats}
    (hmember : member ∈ members) :
    ∃ arg others, member.arg = .mutation arg ∧ validateMutationParams arg = .ok others ∧
      member.goal.params = .mutation others ∧ member.goal.targetName = goal.targetName ∧
      others.total = params.total ∧ others.auto = params.auto ∧
      ∀ floor, others.minDetected = some floor →
        ∃ largest, params.minDetected = some largest ∧ floor ≤ largest := by
  have hparams := hmerged.params
  unfold MergedParams at hparams
  simp only [hgoal] at hparams
  obtain ⟨htarget, others, hown, -, htotal, hauto, hfloor⟩ :=
    hparams.1 member.goal (List.mem_map_of_mem hmember)
  have hshape := member.shape
  simp only [hown] at hshape
  obtain ⟨arg, harg, hvalid⟩ := hshape
  exact ⟨arg, others, harg, hvalid, hown, htarget, htotal, hauto, hfloor⟩

/-- An omitted floor stays omitted, a written one is read. -/
theorem minDetected_of_validate {arg : MutationGoalArg} {params : MutationParams}
    (h : validateMutationParams arg = .ok params) :
    params.minDetected = none ↔ arg.minDetected = none := by
  obtain ⟨-, -, -, hmin, -, -⟩ := validateMutationParams_eq_ok.mp h
  cases hwritten : arg.minDetected with
  | none =>
    rw [hwritten] at hmin
    simp [(Except.ok.inj hmin).symm]
  | some written =>
    rw [hwritten] at hmin
    cases written with
    | int value =>
      simp only [positiveInteger] at hmin
      split_ifs at hmin
      simp [(Except.ok.inj hmin).symm]
    | _ => simp [positiveInteger] at hmin

theorem mutantCount_congr {params others : MutationParams} (htotal : others.total = params.total)
    (hauto : others.auto = params.auto) (report : MutationReport) :
    mutantCount others report = mutantCount params report ∧
      mostMutants others = mostMutants params := by
  simp [mutantCount, mostMutants, htotal, hauto]

/-- A run that creates the most mutants its Goal may create. -/
def fullReport (detected : Nat) : MutationReport := ⟨625, 3750, detected⟩

theorem mutantCount_fullReport (params : MutationParams) (detected : Nat) :
    mutantCount params (fullReport detected) = mostMutants params := by
  have hauto : autoCount (fullReport detected) = 25 := by
    have hroot : roundSqrt 625 = 25 := by
      unfold roundSqrt
      norm_num [Nat.sqrt_eq' 25, show (625 : Nat) = 25 ^ 2 by norm_num]
    simp [autoCount, fullReport, hroot]
  simp [mutantCount, mostMutants, hauto]

/-- Evidence of one mutation run on every Target, and of nothing else. -/
def mutationEvidence (report : MutationReport) : GoalEvidence where
  laterPlan _ := none
  drawnSeeds _ _ _ := []
  suiteRuns _ := []
  rows _ := []
  cycles _ _ := ⟨none, none⟩
  flowPassed _ _ := false
  implementation _ _ := ⟨false, ⟨fun _ => none, none⟩, fun _ => none, []⟩
  baselineMetrics _ _ _ := ⟨fun _ => none, none⟩
  coverage _ := ⟨fun _ => false, fun _ => none⟩
  mutation _ := report
  review _ _ _ _ := ⟨false, 0⟩

/-- A merged mutation Goal covers its members exactly when no implied floor was dropped. -/
theorem mutation_covers_iff [Digests]
    (hmerged : MergedOf names (memberGoals members) goal) {params : MutationParams}
    (hgoal : goal.params = .mutation params) :
    (∀ evidence : GoalEvidence, evidence.satisfies floats names goal = true →
      ∀ member ∈ members, evidence.satisfies floats names member.goal = true) ↔
    ¬ ImpliedFloorDropped (members.map fun member => member.arg) := by
  have hmember := fun member => @mutation_of_mergedOf floats names members goal hmerged params hgoal member
  have hargs : ∀ arg, .mutation arg ∈ members.map (fun member => member.arg) →
      ∃ member ∈ members, member.arg = .mutation arg := by
    intro arg harg
    obtain ⟨member, hmem, hmemArg⟩ := List.mem_map.mp harg
    exact ⟨member, hmem, hmemArg⟩
  have hsatisfies : ∀ (evidence : GoalEvidence) (given : TranslatedGoal) (own : MutationParams),
      given.params = .mutation own → (evidence.satisfies floats names given = true ↔
        mutantsDetected own (evidence.mutation given.targetName) = true) := by
    intro evidence given own hown
    simp [GoalEvidence.satisfies, hown]
  constructor
  · rintro hcovers ⟨⟨own, hown, hnone⟩, ⟨floored, hfloored, hsome⟩, hbelow⟩
    obtain ⟨holder, hholder, hholderArg⟩ := hargs floored hfloored
    obtain ⟨arg, others, harg, hvalid, -, -, htotal, hauto, hfloor⟩ := hmember holder hholder
    obtain rfl : floored = arg := GoalArg.mutation.inj (hholderArg.symm.trans harg)
    obtain ⟨floor, hfloorSome⟩ : ∃ floor, others.minDetected = some floor :=
      Option.ne_none_iff_exists'.mp fun h => hsome ((minDetected_of_validate hvalid).mp h)
    obtain ⟨largest, hlargest, -⟩ := hfloor floor hfloorSome
    -- the largest floor is one of a member, so it is below the most mutants
    have hmost : largest < mostMutants params := by
      have hparams := hmerged.params
      unfold MergedParams at hparams
      simp only [hgoal] at hparams
      obtain ⟨given, hgiven, own', hown', hmin⟩ := hparams.2 largest hlargest
      obtain ⟨member, hmem, rfl⟩ := List.mem_map.mp hgiven
      obtain ⟨arg', others', harg', hvalid', hparams', -, htotal', hauto', -⟩ := hmember member hmem
      obtain rfl := GoalParams.mutation.inj (hown'.symm.trans hparams')
      have hlt := hbelow arg' own' largest
        (List.mem_map.mpr ⟨member, hmem, harg'⟩) hvalid' hmin
      rwa [(mutantCount_congr htotal' hauto' (fullReport 0)).2] at hlt
    obtain ⟨member, hmem, hmemArg⟩ := hargs own hown
    obtain ⟨arg', others', harg', hvalid', hparams', -, htotal', hauto', -⟩ := hmember member hmem
    obtain rfl : own = arg' := GoalArg.mutation.inj (hmemArg.symm.trans harg')
    have homitted := (minDetected_of_validate hvalid').mpr hnone
    have hsat := hcovers (mutationEvidence (fullReport largest)) (by
      rw [hsatisfies _ goal params hgoal, mutantsDetected_iff, hlargest]
      simp only [mutationEvidence, mutantCount_fullReport, Option.getD_some]
      exact ⟨by omega, by omega, le_rfl⟩) member hmem
    rw [hsatisfies _ _ others' hparams', mutantsDetected_iff, homitted] at hsat
    simp only [mutationEvidence, mutantCount_fullReport, Option.getD_none,
      (mutantCount_congr htotal' hauto' (fullReport 0)).2] at hsat
    have hdetected : mostMutants params ≤ largest := hsat.2.2
    omega
  · intro hkept evidence hsat member hmem
    obtain ⟨arg, others, harg, hvalid, hown, htarget, htotal, hauto, hfloor⟩ := hmember member hmem
    rw [hsatisfies _ goal params hgoal, mutantsDetected_iff] at hsat
    rw [hsatisfies _ _ others hown, mutantsDetected_iff, htarget,
      (mutantCount_congr htotal hauto _).1]
    obtain ⟨hpositive, hle, hdetected⟩ := hsat
    refine ⟨hpositive, ?_⟩
    cases hmin : others.minDetected with
    | some floor =>
      obtain ⟨largest, hlargest, hfloorLe⟩ := hfloor floor hmin
      rw [hlargest, Option.getD_some] at hle hdetected
      rw [Option.getD_some]
      exact ⟨hfloorLe.trans hle, hfloorLe.trans hdetected⟩
    | none =>
      rw [Option.getD_none]
      cases hlargest : params.minDetected with
      | none =>
        rw [hlargest, Option.getD_none] at hdetected
        exact ⟨le_rfl, hdetected⟩
      | some largest =>
        rw [hlargest, Option.getD_some] at hle hdetected
        -- some floor is at least the most mutants, so the largest one is the count
        have hcount : mutantCount params (evidence.mutation goal.targetName) ≤ largest := by
          by_contra hlt
          refine hkept ⟨⟨arg, List.mem_map.mpr ⟨member, hmem, harg⟩,
            (minDetected_of_validate hvalid).mp hmin⟩, ?_, ?_⟩
          · have hparams := hmerged.params
            unfold MergedParams at hparams
            simp only [hgoal] at hparams
            obtain ⟨given, hgiven, own', hown', hmin'⟩ := hparams.2 largest hlargest
            obtain ⟨holder, hholder, rfl⟩ := List.mem_map.mp hgiven
            obtain ⟨arg', others', harg', hvalid', hparams', -⟩ := hmember holder hholder
            obtain rfl := GoalParams.mutation.inj (hown'.symm.trans hparams')
            refine ⟨arg', List.mem_map.mpr ⟨holder, hholder, harg'⟩, fun hnone => ?_⟩
            simp [(minDetected_of_validate hvalid').mpr hnone] at hmin'
          · intro arg' params' floor harg' hvalid' hfloor'
            obtain ⟨holder, hholder, hholderArg⟩ := hargs arg' harg'
            obtain ⟨arg'', others', harg'', hvalid'', -, -, htotal', hauto', hfloor''⟩ :=
              hmember holder hholder
            obtain rfl : arg' = arg'' := GoalArg.mutation.inj (hholderArg.symm.trans harg'')
            obtain rfl := Except.ok.inj (hvalid'.symm.trans hvalid'')
            obtain ⟨largest', hlargest', hfloorLe⟩ := hfloor'' floor hfloor'
            obtain rfl := Option.some.inj (hlargest.symm.trans hlargest')
            have hmost := mutantCount_le params (evidence.mutation goal.targetName)
            rw [(mutantCount_congr htotal' hauto' (fullReport 0)).2]
            omega
        exact ⟨le_rfl, hcount.trans hdetected⟩

/-! ## The meet -/

/-- A list of arguments that merge to one Goal merges to its meet, in every order, exactly when
no implied floor is dropped. -/
theorem translateGoals_meet_iff [Digests] {args : List GoalArg} {warnings : List MergeWarning}
    (h : translateGoals floats names args = .ok ⟨[goal], warnings⟩) :
    ((∀ evidence : GoalEvidence, evidence.satisfies floats names goal = true →
        ∀ arg ∈ args, ∀ member, translateOne floats arg = .ok member →
          evidence.satisfies floats names member = true) ∧
      ∀ args', args.Perm args' → ∃ goal' warnings',
        translateGoals floats names args' = .ok ⟨[goal'], warnings'⟩ ∧
          SameRequirement names goal goal') ↔
    ¬ ImpliedFloorDropped args := by
  obtain ⟨group, first, others, warning, rfl, hgroup, hmerge, -⟩ := translateGoals_eq_single.mp h
  have hmerged := mergedOf_merge hgroup hmerge
  have hmembers : (∀ evidence : GoalEvidence, evidence.satisfies floats names goal = true →
        ∀ arg ∈ (first :: others).map (fun member => member.arg), ∀ member,
          translateOne floats arg = .ok member →
          evidence.satisfies floats names member = true) ↔
      ∀ evidence : GoalEvidence, evidence.satisfies floats names goal = true →
        ∀ member ∈ first :: others, evidence.satisfies floats names member.goal = true := by
    constructor
    · intro hall evidence hsat member hmember
      exact hall evidence hsat member.arg (List.mem_map_of_mem hmember) _ member.translated
    · intro hall evidence hsat arg harg translated htranslated
      obtain ⟨member, hmember, rfl⟩ := List.mem_map.mp harg
      obtain rfl := Except.ok.inj (member.translated.symm.trans htranslated)
      exact hall evidence hsat member hmember
  have horder : ∀ args', ((first :: others).map fun member => member.arg).Perm args' →
      ∃ goal' warnings', translateGoals floats names args' = .ok ⟨[goal'], warnings'⟩ ∧
        SameRequirement names goal goal' := by
    intro args' hperm
    have hlift := congrFun (congrFun
      (List.eq_map_comp_perm fun member : Member floats => member.arg) args') (first :: others)
    obtain ⟨members', rfl, hmembers'⟩ := hlift.mpr hperm.symm
    cases members' with
    | nil => simp at hmembers'
    | cons first' others' =>
      obtain ⟨goal', warning', hmerge'⟩ := merge_perm hgroup hmembers'.symm hmerge
      have hgroup' : ∀ member ∈ first' :: others',
          mergeGroup names member.arg member.goal = .ok group :=
        fun member hmember => hgroup member (hmembers'.mem_iff.mp hmember)
      refine ⟨goal', _, translateGoals_eq_single.mpr
        ⟨group, first', others', warning', rfl, hgroup', hmerge', rfl⟩, ?_⟩
      refine hmerged.sameRequirement (fun member => ?_) (by simp [memberGoals])
        (mergedOf_merge hgroup' hmerge')
      exact (hmembers'.symm.map Member.goal).mem_iff
  rw [hmembers, and_iff_left horder]
  by_cases hmutation : ∃ params, goal.params = .mutation params
  · obtain ⟨params, hparams⟩ := hmutation
    exact mutation_covers_iff hmerged hparams
  · -- no member of another Goal is a mutation Goal
    have hother : ∀ params, goal.params ≠ .mutation params := fun params h => hmutation ⟨params, h⟩
    refine ⟨fun _ => ?_, fun _ evidence hsat member hmember =>
      satisfies_of_mergedOf hgroup hmerged hother hsat hmember⟩
    rintro ⟨⟨arg, harg, -⟩, -⟩
    obtain ⟨member, hmember, hmemberArg⟩ := List.mem_map.mp harg
    have htranslated := member.translated
    rw [hmemberArg] at htranslated
    obtain ⟨params, -, hgoal⟩ := translateOne_mutation.mp htranslated
    have hshape := hmerged.shape (List.mem_map_of_mem hmember)
    rw [hgoal] at hshape
    cases hparams : goal.params with
    | mutation params => exact hother params hparams
    | _ => simp [hparams, GoalParams.shape] at hshape

/-! ## A dropped floor -/

section DroppedFloor

local instance blankDigests : Digests := ⟨fun _ => "", fun _ => ""⟩

/-- Arithmetic that no mutation Goal reads. -/
def noFloats : FloatArithmetic where
  percent _ _ _ := .number 0
  cyclePercent _ _ := .number 0
  ofText _ := none

/-- Ten mutants of which all must be detected, and ten of which five must be. -/
def floorArgs : List GoalArg :=
  [.mutation ⟨"alu", some (.texts ["alu.sv"]), some (.int 10), none, none, "first"⟩,
    .mutation ⟨"alu", some (.texts ["alu.sv"]), some (.int 10), none, some (.int 5), "second"⟩]

def mergedFloor : TranslatedGoal :=
  ⟨"mutation_score_alu", .mutation, some "alu",
    .mutation ⟨some ["alu.sv"], some 10, false, some 5⟩, ["first", "second"]⟩

theorem translateGoals_floorArgs : translateGoals noFloats none floorArgs =
    .ok ⟨[mergedFloor], [⟨"mutation_score_alu", ["first", "second"],
      [.minDetected (.added () 5 "second")]⟩]⟩ := by
  rfl

/-- Five detected mutants of ten satisfy the merged Goal and not the one without a floor. -/
theorem mergedFloor_not_meet :
    translateGoals noFloats none floorArgs = .ok ⟨[mergedFloor],
      [⟨"mutation_score_alu", ["first", "second"], [.minDetected (.added () 5 "second")]⟩]⟩ ∧
    (mutationEvidence ⟨100, 600, 5⟩).satisfies noFloats none mergedFloor = true ∧
    ∃ arg ∈ floorArgs, ∃ member, translateOne noFloats arg = .ok member ∧
      (mutationEvidence ⟨100, 600, 5⟩).satisfies noFloats none member = false := by
  refine ⟨translateGoals_floorArgs, rfl, _, List.mem_cons_self, _, rfl, rfl⟩

theorem translateGoals_meet_iff_floorArgs :
    ((∀ evidence : GoalEvidence, evidence.satisfies noFloats none mergedFloor = true →
        ∀ arg ∈ floorArgs, ∀ member, translateOne noFloats arg = .ok member →
          evidence.satisfies noFloats none member = true) ∧
      ∀ args', floorArgs.Perm args' → ∃ goal' warnings',
        translateGoals noFloats none args' = .ok ⟨[goal'], warnings'⟩ ∧
          SameRequirement none mergedFloor goal') ↔
    ¬ ImpliedFloorDropped floorArgs :=
  translateGoals_meet_iff translateGoals_floorArgs

end DroppedFloor

end Booley.Goals
