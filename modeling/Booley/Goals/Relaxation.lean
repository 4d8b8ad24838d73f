import Booley.Goals.ChangePolicy

/-!
# Relaxations weaken

Whatever satisfies a Goal satisfies each relaxation of it: every bound moved in the direction in
which its evaluator asks for less, and everything else that an evaluator reads stayed.
-/
namespace Booley.Goals

open Booley.Lib Booley.TestRuns

variable {floats : FloatArithmetic} {names : Option Checkout} {evidence : GoalEvidence}

/-! ## The stricter of two thresholds -/

/-- The threshold that is kept of a candidate and the current one. -/
def stricterOf (param : ThresholdParam) (candidate current : Rat) : Rat :=
  if stricterThreshold param candidate current then candidate else current

theorem strictness_stricterOf (param : ThresholdParam) (candidate current : Rat) :
    strictness param candidate ≤ strictness param (stricterOf param candidate current) ∧
      strictness param current ≤ strictness param (stricterOf param candidate current) := by
  unfold stricterOf
  by_cases hstricter : stricterThreshold param candidate current = true
  · rw [if_pos hstricter]
    exact ⟨le_rfl, (stricterThreshold_iff.mp hstricter).le⟩
  · rw [if_neg hstricter]
    have hnot := mt stricterThreshold_iff.mpr hstricter
    exact ⟨not_lt.mp hnot, le_rfl⟩

/-! ## Bounds that did not become stricter -/

theorem anyStricter_eq_false {old new : List (BoundName × Option Rat)} :
    anyStricter new old = .ok false ↔
      ∀ bound ∈ old, stricterBound bound.1 (boundOf new bound.1) bound.2 = .ok false := by
  induction old with
  | nil => simp [anyStricter]
  | cons bound old ih =>
    obtain ⟨name, value⟩ := bound
    simp only [anyStricter, except_bind_eq_ok, List.forall_mem_cons, ← ih]
    constructor
    · rintro ⟨stricter, hstricter, h⟩
      cases stricter with
      | true => cases h
      | false => exact ⟨hstricter, h⟩
    · rintro ⟨hstricter, h⟩
      exact ⟨false, hstricter, h⟩

theorem sameNames_iff {old new : List (BoundName × Option Rat)} :
    sameNames old new = true ↔ ∀ name, name ∈ old.map Prod.fst ↔ name ∈ new.map Prod.fst := by
  simp only [sameNames, Bool.and_eq_true, List.all_eq_true, List.contains_iff_mem]
  constructor
  · rintro ⟨hleft, hright⟩ name
    constructor
    · intro hname
      obtain ⟨bound, hbound, rfl⟩ := List.mem_map.mp hname
      exact hleft bound hbound
    · intro hname
      obtain ⟨bound, hbound, rfl⟩ := List.mem_map.mp hname
      exact hright bound hbound
  · intro h
    exact ⟨fun bound hbound => (h bound.1).mp (List.mem_map_of_mem hbound),
      fun bound hbound => (h bound.1).mpr (List.mem_map_of_mem hbound)⟩

section Dictionaries

variable {κ : Type} [DecidableEq κ] {name : κ → BoundName} {values : Dict κ Rat}

theorem mem_dictBounds {key : κ} (hname : Function.Injective name) :
    name key ∈ (dictBounds name values).map Prod.fst ↔ ∃ value, values.lookup key = some value := by
  simp only [dictBounds, List.map_map, List.mem_map, Function.comp_apply]
  constructor
  · rintro ⟨⟨held, value⟩, hentry, heq⟩
    obtain rfl := hname heq
    exact ⟨value, Dict.lookup_eq_some_iff.mpr hentry⟩
  · rintro ⟨value, hvalue⟩
    exact ⟨⟨key, value⟩, Dict.lookup_eq_some_iff.mp hvalue, rfl⟩

theorem boundOf_dictBounds {key : κ} {value : Rat} (hname : Function.Injective name)
    (h : values.lookup key = some value) : boundOf (dictBounds name values) (name key) = some value := by
  have hentry := Dict.lookup_eq_some_iff.mp h
  have hunique : ∀ other, (name key, other) ∈ dictBounds name values → other = some value := by
    intro other hother
    obtain ⟨⟨held, kept⟩, hheld, heq⟩ := List.mem_map.mp hother
    obtain ⟨hkey, rfl⟩ := Prod.mk.inj heq
    obtain rfl := hname hkey
    have hsame := (Dict.lookup_eq_some_iff.mpr hheld).symm.trans h
    exact hsame
  have hmem : (name key, some value) ∈ dictBounds name values :=
    List.mem_map.mpr ⟨⟨key, value⟩, hentry, rfl⟩
  cases hlookup : (dictBounds name values).lookup (name key) with
  | none =>
    rw [List.lookup_eq_none_iff] at hlookup
    exact absurd (hlookup _ hmem) (by simp)
  | some other =>
    obtain ⟨before, after, hsplit, -⟩ := List.lookup_eq_some_iff.mp hlookup
    have hother := hunique other (by rw [hsplit]; simp)
    simp [boundOf, hlookup, hother]

/-- Every new value of a relaxed dictionary stands where an old one stood that is not weaker. -/
theorem relaxed_lookup {old new : Dict κ Rat} (hname : Function.Injective name)
    (hnames : sameNames (dictBounds name old) (dictBounds name new) = true)
    (hweaker : anyStricter (dictBounds name new) (dictBounds name old) = .ok false) {key : κ}
    {weak : Rat} (h : new.lookup key = some weak) :
    ∃ strict, old.lookup key = some strict ∧
      stricterBound (name key) (some weak) (some strict) = .ok false := by
  have hold : name key ∈ (dictBounds name old).map Prod.fst :=
    (sameNames_iff.mp hnames _).mpr ((mem_dictBounds hname).mpr ⟨weak, h⟩)
  obtain ⟨strict, hstrict⟩ := (mem_dictBounds hname).mp hold
  refine ⟨strict, hstrict, ?_⟩
  have hbound := anyStricter_eq_false.mp hweaker (name key, some strict)
    (List.mem_map.mpr ⟨⟨key, strict⟩, Dict.lookup_eq_some_iff.mp hstrict, rfl⟩)
  rwa [boundOf_dictBounds hname h] at hbound

end Dictionaries

theorem stricterBound_threshold {param : ThresholdParam} {weak strict : Rat}
    (h : stricterBound (.threshold param) (some weak) (some strict) = .ok false) :
    strictness param weak ≤ strictness param strict := by
  have hnot : ¬stricterThreshold param weak strict = true := by
    simp only [stricterBound, Except.ok.injEq] at h
    simp [h]
  exact not_lt.mp (mt stricterThreshold_iff.mpr hnot)

/-- A bound that is not a threshold is a lower bound. -/
theorem stricterBound_lower {name : BoundName} (hname : ∀ param, name ≠ .threshold param)
    {weak strict : Rat} (h : stricterBound name (some weak) (some strict) = .ok false) :
    weak ≤ strict := by
  cases name with
  | threshold param => exact absurd rfl (hname param)
  | seedCount => simpa [stricterBound] using h
  | floor metric => simpa [stricterBound] using h
  | minDetected => simpa [stricterBound] using h

/-! ## Goals as translated -/

/-- A Goal that translation gives of one argument, whatever asked for it. -/
def IsTranslated (floats : FloatArithmetic) (goal : TranslatedGoal) : Prop :=
  ∃ arg translated, translateOne floats arg = .ok translated ∧
    goal = { translated with origins := goal.origins }

theorem isTranslated_of_merge {first : Member floats} {others : List (Member floats)}
    {merged : TranslatedGoal × Option MergeWarning} (h : merge names first others = .ok merged) :
    IsTranslated floats merged.1 := by
  unfold merge at h
  dsimp only at h
  split at h
  · obtain rfl := Except.ok.inj h
    exact ⟨first.arg, first.goal, first.translated, rfl⟩
  split at h
  · cases h
  · obtain ⟨⟨arg, decisions⟩, -, h⟩ := except_bind_eq_ok.mp h
    obtain ⟨translated, htranslated, h⟩ := except_bind_eq_ok.mp h
    dsimp only at h
    split at h
    · obtain rfl := Except.ok.inj h
      exact ⟨arg, translated, except_mapError_eq_ok.mp htranslated, rfl⟩
    · cases h

/-- Every Goal of an entry is translated, merged or not. -/
theorem isTranslated_of_translateGoals {args : List GoalArg} {translation : Translation}
    (h : translateGoals floats names args = .ok translation) :
    ∀ goal ∈ translation.goals, IsTranslated floats goal := by
  have hgroups : ∀ (groups : List (List (Member floats)))
      (merged : List (TranslatedGoal × Option MergeWarning)),
      mergeGroups names groups = .ok merged → ∀ item ∈ merged, IsTranslated floats item.1 := by
    intro groups
    induction groups with
    | nil =>
      intro merged hmerged
      obtain rfl := Except.ok.inj hmerged
      simp
    | cons members groups ih =>
      intro merged hmerged
      cases members with
      | nil => exact ih merged hmerged
      | cons first others =>
        obtain ⟨one, hone, hmerged⟩ := except_bind_eq_ok.mp hmerged
        obtain ⟨rest, hrest, hmerged⟩ := except_bind_eq_ok.mp hmerged
        obtain rfl := Except.ok.inj hmerged
        intro item hitem
        rcases List.mem_cons.mp hitem with rfl | hitem
        · exact isTranslated_of_merge hone
        · exact ih rest hrest item hitem
  obtain ⟨translated, -, h⟩ := except_bind_eq_ok.mp h
  obtain ⟨merged, hmerged, h⟩ := except_bind_eq_ok.mp h
  obtain ⟨⟨⟩, -, h⟩ := except_bind_eq_ok.mp h
  obtain rfl := Except.ok.inj h
  intro goal hgoal
  obtain ⟨item, hitem, rfl⟩ := List.mem_map.mp hgoal
  exact hgroups _ merged hmerged item hitem

/-- What the shape of the parameters of a translated Goal says of the rest of it. -/
def Shaped (goal : TranslatedGoal) : Prop :=
  match goal.params with
  | .wholeTarget => goal.family ≠ .review
  | .test _ => goal.family = .sim
  | .implementation _ _ => goal.family = .synth ∨ goal.family = .fpga
  | .cycleCount _ _ _ => goal.family = .cycleCount
  | .coverage _ _ _ => goal.family = .coverage
  | .mutation _ => goal.family = .mutation
  | .review review verdict _ _ _ => goal.family = .review ∧
      goal.key = "review_" ++ reviewName review ++ "_" ++ verdictName verdict

theorem IsTranslated.shaped {goal : TranslatedGoal} (h : IsTranslated floats goal) : Shaped goal := by
  obtain ⟨arg, translated, htranslated, hgoal⟩ := h
  rw [hgoal]
  cases arg with
  | target arg =>
    cases htest : arg.test with
    | none =>
      rw [(translateOne_wholeTarget htest).mp htranslated]
      obtain hsim | ⟨hlint | helaboration, -⟩ := arg.admitted
      · simp [Shaped, hsim]
      · simp [Shaped, hlint]
      · simp [Shaped, helaboration]
    | some test =>
      rw [(translateOne_test htest).mp htranslated]
      obtain hsim | ⟨-, hnone⟩ := arg.admitted
      · exact hsim
      · rw [htest] at hnone
        cases hnone
  | implementation arg =>
    obtain ⟨_, -, -, rfl⟩ := translateOne_implementation.mp htranslated
    exact arg.admitted
  | cycleCount arg =>
    obtain ⟨-, _, -, rfl⟩ := translateOne_cycleCount.mp htranslated
    rfl
  | coverage arg =>
    obtain ⟨-, -, _, -, rfl⟩ := translateOne_coverage.mp htranslated
    rfl
  | mutation arg =>
    obtain ⟨_, -, rfl⟩ := translateOne_mutation.mp htranslated
    rfl
  | review arg =>
    rw [translateOne_review.mp htranslated]
    exact ⟨rfl, rfl⟩

/-! ## What a relaxation keeps -/

variable {before after : TranslatedGoal}

theorem validateKind_relax (h : validateKind .relax (some before) after = .ok ()) :
    before.family = after.family ∧ validateRelax before after = .ok () := by
  have hwaiver : ChangeKind.relax ≠ .waiver := by decide
  simp only [validateKind, hwaiver, if_false] at h
  split at h
  · cases h
  · rename_i hfamily
    obtain ⟨⟨⟩, hmove, -⟩ := except_bind_eq_ok.mp h
    exact ⟨not_not.mp hfamily, hmove⟩

/-- A relaxation of a Goal that is no review keeps its bounds by name, and makes none stricter. -/
structure WeakerBounds (before after : TranslatedGoal) : Prop where
  nonempty : orderedBounds before ≠ []
  names : sameNames (orderedBounds before) (orderedBounds after) = true
  weaker : anyStricter (orderedBounds after) (orderedBounds before) = .ok false

theorem validateRelax_eq_ok (h : validateRelax before after = .ok ()) :
    before.target = after.target ∧ fixedParams before = fixedParams after ∧
      (before.family = .review → ∃ stem, cleanStem before.key = some stem ∧
        after.key.toList = stem ++ "_done".toList) ∧
      (before.family ≠ .review → WeakerBounds before after) := by
  unfold validateRelax at h
  split_ifs at h with hkept hreview hclean hkey hnames hempty
  · have hboth := not_or.mp hkept
    refine ⟨not_not.mp hboth.1, not_not.mp hboth.2, fun _ => ?_, fun hne => absurd hreview hne⟩
    obtain ⟨stem, hstem, hdone⟩ := (Option.any_eq_true _ _).mp hclean
    exact ⟨stem, hstem, by simpa using hdone⟩
  · have hboth := not_or.mp hkept
    refine ⟨not_not.mp hboth.1, not_not.mp hboth.2, fun h => absurd h hreview, fun _ => ?_⟩
    obtain ⟨stricter, hstricter, h⟩ := except_bind_eq_ok.mp h
    cases stricter with
    | true => cases h
    | false => exact ⟨hempty, by simpa using hnames, hstricter⟩

theorem WrittenSelector.ext_text {test other : WrittenSelector} (h : test.text = other.text) :
    test = other := by
  obtain ⟨text, selector, hparsed⟩ := test
  obtain ⟨text', selector', hparsed'⟩ := other
  obtain rfl : text = text' := h
  obtain rfl := Except.ok.inj (hparsed.symm.trans hparsed')
  rfl

theorem writtenTests_injective {tests others : CoverageTests}
    (h : writtenTests tests = writtenTests others) : tests = others := by
  cases tests with
  | all =>
    cases others with
    | all => rfl
    | named selectors => cases h
  | named selectors =>
    cases others with
    | all => cases h
    | named others =>
      have hmap := Option.some.inj h
      have hinjective : Function.Injective WrittenSelector.text := fun _ _ =>
        WrittenSelector.ext_text
      rw [hinjective.list_map hmap]

/-! ## Fewer seeds -/

theorem planFor_count (later : String → Option TargetTestPlan) (target test : String)
    (variant : Option String) (n m : Nat) :
    planFor names later target ⟨test, variant, .count n⟩ =
      planFor names later target ⟨test, variant, .count m⟩ := by
  cases names with
  | none => rfl
  | some checkout =>
    simp only [planFor, Checkout.canonicalSelector]
    cases checkout.plan target with
    | none => rfl
    | some plan =>
      dsimp only
      cases orMissing (plan.run (some test) variant none) with
      | error reason => rfl
      | ok found => cases found <;> rfl

/-- A Goal for fewer seeds names the first of the Test Runs it named for more. -/
theorem requiredRuns_fewer {target : String} {test fewer : WrittenSelector} {n m : Nat}
    (hform : test.selector.seedForm = .count n) (hform' : fewer.selector.seedForm = .count m)
    (htext : variantText test.selector = variantText fewer.selector) (hle : m ≤ n)
    {runs : List TestRun} (hruns : evidence.requiredRuns names target test = some runs) :
    evidence.requiredRuns names target fewer = some (runs.take m) := by
  obtain ⟨hvalid, -, -⟩ := parseTestSelector_valid test.parsed
  obtain ⟨hvalid', -, -⟩ := parseTestSelector_valid fewer.parsed
  obtain ⟨htest, hvariant⟩ := variantText_inj hvalid hvalid' htext
  have hmore : test.selector = ⟨test.selector.test, test.selector.variant, .count n⟩ := by
    rw [← hform]
  have hless : fewer.selector = ⟨test.selector.test, test.selector.variant, .count m⟩ := by
    rw [htest, hvariant, ← hform']
  unfold GoalEvidence.requiredRuns at hruns ⊢
  rw [hless, planFor_count _ _ _ _ m n]
  rw [hmore] at hruns
  dsimp only at hruns ⊢
  cases hplan : planFor names evidence.laterPlan target
      ⟨test.selector.test, test.selector.variant, .count n⟩ with
  | none => simp [hplan] at hruns
  | some plan =>
    simp only [hplan, Option.bind_eq_bind, Option.bind_some] at hruns ⊢
    split at hruns
    · rename_i found hnamed
      obtain rfl := hruns
      rw [(namedRuns_take hle hnamed).1]
    · cases hruns

theorem seedCount_eq_some {goal : TranslatedGoal} {n : Nat} :
    seedCount goal = some n ↔ goal.family = .sim ∧ ∃ test, goal.params = .test test ∧
      test.selector.seedForm = .count n := by
  unfold seedCount
  cases hfamily : goal.family with
  | sim =>
    cases hparams : goal.params with
    | test test =>
      cases hform : test.selector.seedForm with
      | count m => simp [hform]
      | unpinned => simp [hform]
      | pinned seed => simp [hform]
    | _ => simp
  | _ => simp

theorem orderedBounds_of_seedCount {goal : TranslatedGoal} {n : Nat} (h : seedCount goal = some n) :
    orderedBounds goal = [(.seedCount, some (n : Rat))] := by
  simp [orderedBounds, h]

theorem orderedBounds_of_params {goal : TranslatedGoal} (h : seedCount goal = none) :
    orderedBounds goal = paramBounds goal.params := by
  simp [orderedBounds, h]

/-- A relaxed multi-seed Goal asks for at most as many seeds of the same Test Variant. -/
theorem seeds_of_weaker {test : WrittenSelector} (hparams : before.params = .test test)
    (hfixed : fixedParams before = fixedParams after)
    (hweaker : WeakerBounds before after) :
    ∃ fewer n m, after.params = .test fewer ∧ test.selector.seedForm = .count n ∧
      fewer.selector.seedForm = .count m ∧
      variantText test.selector = variantText fewer.selector ∧ m ≤ n := by
  cases hseeds : seedCount before with
  | none =>
    have hempty : orderedBounds before = [] := by
      rw [orderedBounds_of_params hseeds, hparams]
      rfl
    exact absurd hempty hweaker.nonempty
  | some n =>
    obtain ⟨-, own, hown, hform⟩ := seedCount_eq_some.mp hseeds
    obtain rfl : test = own := by
      rw [hparams] at hown
      exact GoalParams.test.inj hown
    have hvariant : fixedParams after = .variant (variantText test.selector) := by
      rw [← hfixed]
      simp [fixedParams, hparams, hseeds]
    cases hafter : after.params with
    | test fewer =>
      cases hseeds' : seedCount after with
      | none => simp [fixedParams, hafter, hseeds'] at hvariant
      | some m =>
        obtain ⟨-, own', hown', hform'⟩ := seedCount_eq_some.mp hseeds'
        obtain rfl : fewer = own' := by
          rw [hafter] at hown'
          exact GoalParams.test.inj hown'
        have htext : variantText fewer.selector = variantText test.selector := by
          simpa [fixedParams, hafter, hseeds'] using hvariant
        have hbound := anyStricter_eq_false.mp hweaker.weaker (.seedCount, some (n : Rat))
          (by rw [orderedBounds_of_seedCount hseeds]; simp)
        have hkept : boundOf (orderedBounds after) .seedCount = some (m : Rat) := by
          rw [orderedBounds_of_seedCount hseeds']
          rfl
        rw [hkept] at hbound
        have hle := stricterBound_lower (fun _ => by simp) hbound
        exact ⟨fewer, n, m, rfl, hform, hform', htext.symm, by exact_mod_cast hle⟩
    | _ => simp [fixedParams, hafter] at hvariant

/-! ## Weaker thresholds, floors and counts -/

theorem seedCount_of_not_test {goal : TranslatedGoal} (h : ∀ test, goal.params ≠ .test test) :
    seedCount goal = none := by
  cases hseeds : seedCount goal with
  | none => rfl
  | some n =>
    obtain ⟨-, test, htest, -⟩ := seedCount_eq_some.mp hseeds
    exact absurd htest (h test)

theorem orderedBounds_of_not_test {goal : TranslatedGoal} {params : GoalParams}
    (h : goal.params = params) (hnot : ∀ test, params ≠ .test test) :
    orderedBounds goal = paramBounds params := by
  rw [orderedBounds_of_params (seedCount_of_not_test fun test => by rw [h]; exact hnot test), h]

theorem fixedParams_test {goal : TranslatedGoal} {test : WrittenSelector}
    (h : goal.params = .test test) :
    fixedParams goal = .test test.text ∨ fixedParams goal = .variant (variantText test.selector) := by
  simp only [fixedParams, h]
  split
  · exact .inr rfl
  · exact .inl rfl

/-- Every bound of a relaxed dictionary holds where its old one held. -/
theorem allHold_of_weaker {κ : Type} [DecidableEq κ] {name : κ → BoundName} {old new : Dict κ Rat}
    (hname : Function.Injective name)
    (hnames : sameNames (dictBounds name old) (dictBounds name new) = true)
    (hweaker : anyStricter (dictBounds name new) (dictBounds name old) = .ok false)
    {holds : κ → Rat → Bool}
    (hweaken : ∀ key strict weak, stricterBound (name key) (some weak) (some strict) = .ok false →
      holds key strict = true → holds key weak = true)
    (h : allHold old holds = true) : allHold new holds = true := by
  rw [allHold_iff] at h ⊢
  intro key weak hweak
  obtain ⟨strict, hstrict, hbound⟩ := relaxed_lookup hname hnames hweaker hweak
  exact hweaken key strict weak hbound (h key strict hstrict)

theorem threshold_injective : Function.Injective BoundName.threshold :=
  fun _ _ => BoundName.threshold.inj

theorem floor_injective : Function.Injective BoundName.floor := fun _ _ => BoundName.floor.inj

theorem detectedFloor_of_some {params : MutationParams} {n : Nat}
    (h : detectedFloor params = some n) (report : MutationReport) :
    params.minDetected.getD (mutantCount params report) = n := by
  unfold detectedFloor at h
  cases hmin : params.minDetected with
  | some floor =>
    rw [hmin] at h
    exact Option.some.inj h
  | none =>
    rw [hmin, Option.none_or] at h
    unfold impliedFloor at h
    split at h
    · cases h
    · rename_i hfixed
      simp only [Option.getD_none, mutantCount, hfixed]
      exact Option.some.inj h

/-- A relaxed mutation floor, written or implied, is at most the old one. -/
theorem mutantsDetected_of_weaker {params relaxed : MutationParams} {report : MutationReport}
    (htotal : params.total = relaxed.total) (hauto : params.auto = relaxed.auto)
    (hweaker : anyStricter (paramBounds (.mutation relaxed)) (paramBounds (.mutation params)) =
      .ok false)
    (h : mutantsDetected params report = true) : mutantsDetected relaxed report = true := by
  have hcount : mutantCount relaxed report = mutantCount params report := by
    simp [mutantCount, htotal, hauto]
  have hbound : stricterBound .minDetected ((detectedFloor relaxed).map Nat.cast)
      ((detectedFloor params).map Nat.cast) = .ok false :=
    anyStricter_eq_false.mp hweaker _ (List.mem_singleton.mpr rfl)
  cases hold : detectedFloor params with
  | none => cases hnew : detectedFloor relaxed <;> simp [hold, hnew, stricterBound] at hbound
  | some strict =>
    cases hnew : detectedFloor relaxed with
    | none => simp [hold, hnew, stricterBound] at hbound
    | some weak =>
      rw [hold, hnew, Option.map_some, Option.map_some] at hbound
      have hle : weak ≤ strict := by
        exact_mod_cast stricterBound_lower (fun _ => by simp) hbound
      rw [mutantsDetected_iff] at h ⊢
      rw [detectedFloor_of_some hold] at h
      rw [detectedFloor_of_some hnew, hcount]
      omega

/-! ## Reviews -/

theorem reviewName_injective {review other : ReviewKind} (h : reviewName review = reviewName other) :
    review = other := by
  cases review <;> cases other <;> first | rfl | exact absurd h (by decide)

theorem cleanStem_eq_some {key : String} {stem : List Char} :
    cleanStem key = some stem ↔ key.toList = stem ++ "_clean".toList := by
  unfold cleanStem
  split
  · rename_i hsuffix
    obtain ⟨front, hfront⟩ := List.isSuffixOf_iff_suffix.mp hsuffix
    rw [← hfront]
    simp
  · rename_i hsuffix
    constructor
    · intro h
      cases h
    · intro h
      exact absurd (List.isSuffixOf_iff_suffix.mpr ⟨stem, h.symm⟩) hsuffix

theorem done_ne_clean (front stem : List Char) :
    front ++ "_done".toList ≠ stem ++ "_clean".toList := by
  intro h
  have hlast := congrArg List.getLast? h
  simp [List.getLast?_append] at hlast

/-- The only relaxation of a review is from clean to done. -/
theorem review_relaxed {review other : ReviewKind} {verdict verdict' : ReviewVerdict}
    {stem : List Char}
    (hstem : cleanStem ("review_" ++ reviewName review ++ "_" ++ verdictName verdict) = some stem)
    (hdone : ("review_" ++ reviewName other ++ "_" ++ verdictName verdict').toList =
      stem ++ "_done".toList) :
    review = other ∧ verdict' = .done := by
  have hkey := cleanStem_eq_some.mp hstem
  have hclean : "_".toList ++ (verdictName .clean).toList = "_clean".toList := by decide
  have hended : "_".toList ++ (verdictName .done).toList = "_done".toList := by decide
  simp only [String.toList_append, List.append_assoc] at hkey hdone
  cases verdict with
  | done =>
    rw [hended, ← List.append_assoc] at hkey
    exact absurd hkey (done_ne_clean _ _)
  | clean =>
    rw [hclean, ← List.append_assoc] at hkey
    have hfront := List.append_cancel_right hkey
    cases verdict' with
    | clean =>
      rw [hclean, ← List.append_assoc] at hdone
      exact absurd hdone.symm (done_ne_clean _ _)
    | done =>
      rw [hended, ← List.append_assoc] at hdone
      have hother := List.append_cancel_right hdone
      rw [← hfront] at hother
      have hname := List.append_cancel_left hother
      exact ⟨(reviewName_injective (String.toList_inj.mp hname)).symm, rfl⟩

/-! ## Relaxed Goals -/

/-- Whatever satisfies a Goal satisfies its relaxation. -/
theorem satisfies_of_relax [Digests] (hbefore : IsTranslated floats before)
    (hafter : IsTranslated floats after)
    (hrelax : validateKind .relax (some before) after = .ok ())
    (hmet : evidence.satisfies floats names before = true) :
    evidence.satisfies floats names after = true := by
  obtain ⟨hfamily, hvalid⟩ := validateKind_relax hrelax
  obtain ⟨htarget, hfixed, hreview, hbounds⟩ := validateRelax_eq_ok hvalid
  have hname : after.targetName = before.targetName := by
    rw [TranslatedGoal.targetName, TranslatedGoal.targetName, htarget]
  have hshape := hbefore.shaped
  have hshape' := hafter.shaped
  unfold GoalEvidence.satisfies at hmet ⊢
  cases hparams : before.params with
  | wholeTarget =>
    simp only [Shaped, hparams] at hshape
    have hempty : orderedBounds before = [] := orderedBounds_of_not_test hparams (by simp)
    exact absurd hempty (hbounds hshape).nonempty
  | test test =>
    simp only [Shaped, hparams] at hshape
    have hplain : before.family ≠ .review := by simp [hshape]
    obtain ⟨fewer, n, m, hparams', hform, hform', htext, hle⟩ :=
      seeds_of_weaker hparams hfixed (hbounds hplain)
    simp only [hparams, hparams', hname] at hmet ⊢
    obtain ⟨runs, hruns, hpassed⟩ := (Option.any_eq_true _ _).mp hmet
    rw [requiredRuns_fewer hform hform' htext hle hruns, Option.any_some]
    have hm : m ≠ 0 := by
      obtain ⟨-, -, hpositive⟩ := parseTestSelector_valid fewer.parsed
      exact fun hzero => hpositive (by rw [hform', hzero])
    refine runsPassed_of_subset rfl (fun _ hrun => List.mem_of_mem_take hrun) ?_ hpassed
    intro hne hnil
    rcases List.take_eq_nil_iff.mp hnil with hzero | hempty
    · exact hm hzero
    · exact hne hempty
  | implementation thresholds baseline =>
    simp only [Shaped, hparams] at hshape
    have hplain : before.family ≠ .review := by
      rcases hshape with h | h <;> simp [h]
    cases hparams' : after.params with
    | implementation relaxed baseline' =>
      obtain rfl : baseline = baseline' := by
        simpa [fixedParams, hparams, hparams'] using hfixed
      obtain ⟨-, hsame, hweaker⟩ := hbounds hplain
      rw [orderedBounds_of_not_test hparams (by simp), orderedBounds_of_not_test hparams' (by simp)]
        at hsame hweaker
      simp only [hparams, hname, ← hfamily, Bool.and_eq_true] at hmet ⊢
      refine ⟨hmet.1, allHold_of_weaker threshold_injective hsame hweaker ?_ hmet.2⟩
      exact fun param strict weak hbound hpass =>
        checkSingleThreshold_weaken (stricterBound_threshold hbound) hpass
    | test other =>
      rcases fixedParams_test hparams' with h | h
      · rw [h] at hfixed
        simp [fixedParams, hparams] at hfixed
      · rw [h] at hfixed
        simp [fixedParams, hparams] at hfixed
    | _ => simp [fixedParams, hparams, hparams'] at hfixed
  | cycleCount target test thresholds =>
    simp only [Shaped, hparams] at hshape
    have hplain : before.family ≠ .review := by simp [hshape]
    cases hparams' : after.params with
    | cycleCount target' test' relaxed =>
      obtain ⟨rfl, htext⟩ : target = target' ∧ test.text = test'.text := by
        simpa [fixedParams, hparams, hparams'] using hfixed
      obtain rfl := WrittenSelector.ext_text htext
      obtain ⟨-, hsame, hweaker⟩ := hbounds hplain
      rw [orderedBounds_of_not_test hparams (by simp), orderedBounds_of_not_test hparams' (by simp)]
        at hsame hweaker
      simp only [hparams] at hmet ⊢
      obtain ⟨runs, hruns, hpassed⟩ := (Option.any_eq_true _ _).mp hmet
      simp only [hruns, Option.any_some, Bool.and_eq_true, List.all_eq_true] at hpassed ⊢
      refine ⟨hpassed.1, fun run hrun => ?_⟩
      refine allHold_of_weaker threshold_injective hsame hweaker ?_ (hpassed.2 run hrun)
      exact fun param strict weak hbound hpass =>
        evaluateCycleThreshold_weaken (stricterBound_threshold hbound) hpass
    | test other =>
      rcases fixedParams_test hparams' with h | h
      · rw [h] at hfixed
        simp [fixedParams, hparams] at hfixed
      · rw [h] at hfixed
        simp [fixedParams, hparams] at hfixed
    | _ => simp [fixedParams, hparams, hparams'] at hfixed
  | coverage target metrics tests =>
    simp only [Shaped, hparams] at hshape
    have hplain : before.family ≠ .review := by simp [hshape]
    cases hparams' : after.params with
    | coverage target' relaxed tests' =>
      obtain ⟨rfl, hwritten⟩ : target = target' ∧ writtenTests tests = writtenTests tests' := by
        simpa [fixedParams, hparams, hparams'] using hfixed
      obtain rfl := writtenTests_injective hwritten
      obtain ⟨-, hsame, hweaker⟩ := hbounds hplain
      rw [orderedBounds_of_not_test hparams (by simp), orderedBounds_of_not_test hparams' (by simp)]
        at hsame hweaker
      simp only [hparams] at hmet ⊢
      cases hselection : coverageTestsKey names target tests with
      | error reason => simp [hselection] at hmet
      | ok key =>
        simp only [hselection, Bool.and_eq_true] at hmet ⊢
        refine ⟨hmet.1, allHold_of_weaker floor_injective hsame hweaker ?_ hmet.2⟩
        exact fun metric strict weak hbound hpass =>
          floorMet_weaken (stricterBound_lower (fun _ => by simp) hbound) hpass
    | test other =>
      rcases fixedParams_test hparams' with h | h
      · rw [h] at hfixed
        simp [fixedParams, hparams] at hfixed
      · rw [h] at hfixed
        simp [fixedParams, hparams] at hfixed
    | _ => simp [fixedParams, hparams, hparams'] at hfixed
  | mutation params =>
    simp only [Shaped, hparams] at hshape
    have hplain : before.family ≠ .review := by simp [hshape]
    cases hparams' : after.params with
    | mutation relaxed =>
      obtain ⟨-, htotal, hauto⟩ : params.scope = relaxed.scope ∧ params.total = relaxed.total ∧
          params.auto = relaxed.auto := by
        simpa [fixedParams, hparams, hparams'] using hfixed
      obtain ⟨-, -, hweaker⟩ := hbounds hplain
      rw [orderedBounds_of_not_test hparams (by simp), orderedBounds_of_not_test hparams' (by simp)]
        at hweaker
      simp only [hparams, hname] at hmet ⊢
      exact mutantsDetected_of_weaker htotal hauto hweaker hmet
    | test other =>
      rcases fixedParams_test hparams' with h | h
      · rw [h] at hfixed
        simp [fixedParams, hparams] at hfixed
      · rw [h] at hfixed
        simp [fixedParams, hparams] at hfixed
    | _ => simp [fixedParams, hparams, hparams'] at hfixed
  | review review verdict spec target paths =>
    simp only [Shaped, hparams] at hshape
    obtain ⟨hkind, hkey⟩ := hshape
    obtain ⟨stem, hstem, hdone⟩ := hreview hkind
    cases hparams' : after.params with
    | review review' verdict' spec' target' paths' =>
      obtain ⟨rfl, rfl, rfl⟩ : spec = spec' ∧ target = target' ∧ paths = paths' := by
        simpa [fixedParams, hparams, hparams'] using hfixed
      simp only [Shaped, hparams'] at hshape'
      rw [hkey] at hstem
      rw [hshape'.2] at hdone
      obtain ⟨rfl, rfl⟩ := review_relaxed hstem hdone
      simp only [hparams, Bool.and_eq_true] at hmet ⊢
      exact ⟨hmet.1, by simp⟩
    | test other =>
      rcases fixedParams_test hparams' with h | h
      · rw [h] at hfixed
        simp [fixedParams, hparams] at hfixed
      · rw [h] at hfixed
        simp [fixedParams, hparams] at hfixed
    | _ => simp [fixedParams, hparams, hparams'] at hfixed

/-- A relaxation only weakens: evidence that meets the Goal before meets the Goal after. The
stricter of two thresholds is one whose satisfaction is that of both. -/
theorem relax_only_weakens [Digests] (hbefore : IsTranslated floats before)
    (hafter : IsTranslated floats after)
    (hrelax : validateKind .relax (some before) after = .ok ()) :
    (∀ (names : Option Checkout) (evidence : GoalEvidence),
      evidence.satisfies floats names before = true →
        evidence.satisfies floats names after = true) ∧
    ∀ (param : ThresholdParam) (candidate current : Rat),
      (∀ cycles, evaluateCycleThreshold floats param (stricterOf param candidate current) cycles =
          true →
        evaluateCycleThreshold floats param candidate cycles = true ∧
          evaluateCycleThreshold floats param current cycles = true) ∧
      ∀ report, checkSingleThreshold floats param (stricterOf param candidate current) report =
          true →
        checkSingleThreshold floats param candidate report = true ∧
          checkSingleThreshold floats param current report = true := by
  refine ⟨fun _ _ hmet => satisfies_of_relax hbefore hafter hrelax hmet, ?_⟩
  intro param candidate current
  obtain ⟨hcandidate, hcurrent⟩ := strictness_stricterOf param candidate current
  constructor
  · intro cycles hpass
    exact ⟨evaluateCycleThreshold_weaken hcandidate hpass,
      evaluateCycleThreshold_weaken hcurrent hpass⟩
  · intro report hpass
    exact ⟨checkSingleThreshold_weaken hcandidate hpass,
      checkSingleThreshold_weaken hcurrent hpass⟩

section RelaxedFloor

local instance noDigests : Digests := ⟨fun _ => "", fun _ => ""⟩

/-- Ten mutants of which all must be detected. -/
def allMutants : TranslatedGoal :=
  ⟨"mutation_score_alu", .mutation, some "alu", .mutation ⟨some ["alu.sv"], some 10, false, none⟩,
    ["entry"]⟩

/-- Ten mutants of which five must be detected. -/
def halfOfMutants : TranslatedGoal :=
  { allMutants with params := .mutation ⟨some ["alu.sv"], some 10, false, some 5⟩ }

theorem relax_only_weakens_mutants :
    (∀ (names : Option Checkout) (evidence : GoalEvidence),
      evidence.satisfies noFloats names allMutants = true →
        evidence.satisfies noFloats names halfOfMutants = true) ∧
    ∀ (param : ThresholdParam) (candidate current : Rat),
      (∀ cycles, evaluateCycleThreshold noFloats param (stricterOf param candidate current) cycles =
          true →
        evaluateCycleThreshold noFloats param candidate cycles = true ∧
          evaluateCycleThreshold noFloats param current cycles = true) ∧
      ∀ report, checkSingleThreshold noFloats param (stricterOf param candidate current) report =
          true →
        checkSingleThreshold noFloats param candidate report = true ∧
          checkSingleThreshold noFloats param current report = true := by
  refine relax_only_weakens ?_ ?_ ?_
  · exact ⟨.mutation ⟨"alu", some (.texts ["alu.sv"]), some (.int 10), none, none, "entry"⟩, _, rfl,
      rfl⟩
  · exact ⟨.mutation ⟨"alu", some (.texts ["alu.sv"]), some (.int 10), none, some (.int 5),
      "entry"⟩, _, rfl, rfl⟩
  · decide +kernel

end RelaxedFloor

end Booley.Goals
