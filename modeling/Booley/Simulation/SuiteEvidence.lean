import Booley.Simulation.SuiteChanges

/-!
# A simulation Criterion is met by its whole suite

What a change of a simulation Criterion has to rest on: one candidate observation of each required
Test, none of them lost, and a pass of all of them when it is met. The unnamed run is displayed
under the name `default`, and the changes rest on their Tests exactly when no judged Criterion
requires that name while a Test called `default` was observed too.
-/
namespace Booley.Simulation

open Booley.Lib Booley.TestRuns Booley.Goals

/-! ## Observations of Tests that ran once -/

def ObservationFact.test (fact : ObservationFact) : Option String := fact.observation.test

/-- The name an observation is displayed under. -/
def ObservationFact.displayed (fact : ObservationFact) : String := testName fact.test

/-- The observations of the Tests that have one. -/
def singles (facts : List ObservationFact) : List ObservationFact :=
  facts.filter fun fact => (facts.map (·.test)).count fact.test = 1

theorem foldl_indexTest_fst (facts : List ObservationFact)
    (indexed : List (Option String × ObservationFact) × List (Option String)) :
    (facts.foldl indexTest indexed).1 =
      facts.foldl (fun dict fact => setItem dict fact.test fact) indexed.1 := by
  induction facts generalizing indexed with
  | nil => rfl
  | cons fact rest ih => exact ih (indexTest indexed fact)

theorem mem_foldl_indexTest (facts : List ObservationFact)
    (indexed : List (Option String × ObservationFact) × List (Option String))
    (test : Option String) :
    test ∈ (facts.foldl indexTest indexed).2 ↔ test ∈ indexed.2 ∨
      2 ≤ (facts.map (·.test)).count test + if (indexed.1.lookup test).isSome then 1 else 0 := by
  induction facts generalizing indexed with
  | nil =>
    rw [List.foldl_nil, List.map_nil, List.count_nil]
    split <;> simp
  | cons fact rest ih =>
    rw [List.foldl_cons, ih, List.map_cons]
    by_cases htest : test = fact.test
    · subst htest
      have hlookup : ((indexTest indexed fact).1.lookup fact.test).isSome = true := by
        rw [indexTest, ← ObservationFact.test, lookup_setItem, beq_self_eq_true]
        rfl
      rw [hlookup, List.count_cons_self, indexTest, ← ObservationFact.test]
      cases (indexed.1.lookup fact.test).isSome with
      | true => simp
      | false => simp
    · have hne : (test == fact.test) = false := by simpa using htest
      have hlookup : (indexTest indexed fact).1.lookup test = indexed.1.lookup test := by
        rw [indexTest, ← ObservationFact.test, lookup_setItem, hne]
        rfl
      rw [hlookup, List.count_cons_of_ne (Ne.symm htest), indexTest, ← ObservationFact.test]
      dsimp only
      split
      · rw [List.mem_cons, or_iff_right htest]
      · exact Iff.rfl

theorem singles_nodup (facts : List ObservationFact) :
    ((singles facts).map (·.test)).Nodup := by
  refine List.nodup_iff_count_le_one.mpr fun test => ?_
  by_cases hmem : test ∈ (singles facts).map (·.test)
  · obtain ⟨fact, hfact, rfl⟩ := List.mem_map.mp hmem
    have hcount := (List.mem_filter.mp hfact).2
    rw [decide_eq_true_eq] at hcount
    calc ((singles facts).map (·.test)).count fact.test
        ≤ (facts.map (·.test)).count fact.test :=
          (List.filter_sublist.map _).count_le _
      _ = 1 := hcount
      _ ≤ 1 := le_rfl
  · rw [List.count_eq_zero.mpr hmem]
    exact Nat.zero_le 1

theorem filter_test_of_single {facts : List ObservationFact} {fact : ObservationFact}
    (h : fact ∈ singles facts) : facts.filter (·.test == fact.test) = [fact] := by
  obtain ⟨hmem, hcount⟩ := List.mem_filter.mp h
  rw [decide_eq_true_eq, List.count_eq_countP, List.countP_map, List.countP_eq_length_filter]
    at hcount
  obtain ⟨only, honly⟩ := List.length_eq_one_iff.mp hcount
  have hself : fact ∈ facts.filter ((· == fact.test) ∘ (·.test)) :=
    List.mem_filter.mpr ⟨hmem, beq_self_eq_true _⟩
  rw [honly, List.mem_singleton] at hself
  rw [hself]
  rw [hself] at honly
  exact honly

theorem mem_of_single {facts : List ObservationFact} {fact : ObservationFact}
    (h : fact ∈ singles facts) : fact ∈ facts := List.mem_of_mem_filter h

/-- Two Tests share a displayed name only when one of them is the unnamed run. -/
theorem testName_inj {test other : Option String} (h : testName test = testName other)
    (hne : test ≠ other) : (test = none ∧ other = some "default") ∨
      (test = some "default" ∧ other = none) := by
  cases test with
  | none =>
    cases other with
    | none => exact absurd rfl hne
    | some name => exact .inl ⟨rfl, congrArg some h.symm⟩
  | some name =>
    cases other with
    | none => exact .inr ⟨congrArg some h, rfl⟩
    | some name' => exact absurd (congrArg some h) hne

/-! ## A passing campaign -/

/-- The execution, the verdict and the assertions of an observation make a pass. -/
def ObservationFact.Passed (fact : ObservationFact) : Prop :=
  fact.observation.execution = .completed ∧ fact.observation.functional = .pass ∧
    fact.observation.assertions ≠ .dirty

theorem observationPassed_iff {fact : ObservationFact} :
    observationPassed fact.observation = true ↔ fact.Passed := by
  simp [observationPassed, ObservationFact.Passed, and_assoc]

theorem le_foldl_worst (grades : List StrictGrade) (start : StrictGrade) :
    let worst := grades.foldl
      (fun worst grade => if worst.precedence < grade.precedence then grade else worst) start
    start.precedence ≤ worst.precedence ∧
      ∀ grade ∈ grades, grade.precedence ≤ worst.precedence := by
  induction grades generalizing start with
  | nil => exact ⟨le_rfl, fun grade hgrade => by cases hgrade⟩
  | cons first rest ih =>
    obtain ⟨hstart, hrest⟩ := ih (if start.precedence < first.precedence then first else start)
    have hle : start.precedence ≤ (if start.precedence < first.precedence then first
        else start).precedence ∧ first.precedence ≤ (if start.precedence < first.precedence
          then first else start).precedence := by
      split <;> omega
    refine ⟨hle.1.trans hstart, fun grade hgrade => ?_⟩
    rcases List.mem_cons.mp hgrade with rfl | hgrade
    · exact hle.2.trans hstart
    · exact hrest grade hgrade

theorem strictGrade_of_resultGrade {observations : List ResultObservation}
    (h : resultGrade observations = .pass) :
    ∀ observation ∈ observations, observation.strictGrade = .pass := by
  intro observation hobservation
  have hle := (le_foldl_worst (observations.map (·.strictGrade)) .pass).2 _
    (List.mem_map_of_mem hobservation)
  rw [← resultGrade, h] at hle
  cases hgrade : observation.strictGrade with
  | pass => rfl
  | inconclusive | fail | error =>
    rw [hgrade] at hle
    simp [StrictGrade.precedence] at hle

theorem grades_of_aggregate {grades : List StrictGrade} {complete : Bool}
    (h : aggregateGradeOf grades complete = "pass") : ∀ grade ∈ grades, grade = .pass := by
  intro grade hgrade
  have hcontains := List.contains_iff_mem.mpr hgrade
  unfold aggregateGradeOf at h
  split at h
  · exact absurd h (by decide)
  next herror =>
    split at h
    · exact absurd h (by decide)
    next hfail =>
      split at h
      · exact absurd h (by decide)
      next hrest =>
        cases grade with
        | pass => rfl
        | inconclusive => exact absurd (Bool.or_eq_true _ _ ▸ .inr hcontains) hrest
        | fail => exact absurd hcontains hfail
        | error => exact absurd hcontains herror

/-- Only a completed run with a pass and without fired assertions is graded a pass. -/
theorem passed_of_strictGrade {fact : ObservationFact}
    (h : fact.observation.strictGrade = .pass) : fact.Passed := by
  unfold ResultObservation.strictGrade gradeObservations at h
  split at h
  · cases h
  · split at h
    any_goals cases h
    next hcompleted =>
      split at h
      · cases h
      next hclean =>
        split at h
        next hpass => exact ⟨hcompleted, hpass, fun hdirty => hclean (.inr hdirty)⟩
        · cases h

/-- An observation of this kind is a failure to the campaign, and no pass. -/
theorem not_passed_of_fail {fact : ObservationFact}
    (h : fact.observation.strictGrade = .fail) : ¬ fact.Passed := by
  rintro ⟨hcompleted, hpass, hclean⟩
  unfold ResultObservation.strictGrade gradeObservations at h
  rw [hcompleted, hpass] at h
  split at h
  · cases h
  · simp [hclean] at h

section Judged

variable [Digests] (outcome : SuiteOutcome)

def candidates : List ObservationFact := candidateObservations outcome.toCampaignOutcome

/-- A Criterion is judged from the Tests that were run once. -/
theorem candidateSimulationObservations_eq :
    candidateSimulationObservations outcome =
      (singles (candidates outcome)).map fun fact => (fact.test, fact) := by
  have hkept : ∀ fact ∈ candidates outcome,
      (!((candidates outcome).foldl indexTest ([], [])).2.contains fact.test) =
        decide (((candidates outcome).map (·.test)).count fact.test = 1) := by
    intro fact hfact
    have hpos : 0 < ((candidates outcome).map (·.test)).count fact.test :=
      List.count_pos_iff.mpr (List.mem_map_of_mem hfact)
    have hmem := mem_foldl_indexTest (candidates outcome) ([], []) fact.test
    rw [← List.contains_iff_mem] at hmem
    cases hcontains : ((candidates outcome).foldl indexTest ([], [])).2.contains fact.test with
    | true =>
      have htwo := hmem.mp hcontains
      simp only [List.not_mem_nil, List.lookup_nil, Option.isSome_none, false_or] at htwo
      have hne : ((candidates outcome).map (·.test)).count fact.test ≠ 1 := by
        simp only [Bool.false_eq_true, if_false] at htwo
        omega
      simp [hne]
    | false =>
      have hfew := mt hmem.mpr (by simp only [hcontains, Bool.false_eq_true, not_false_eq_true])
      simp only [List.not_mem_nil, List.lookup_nil, Option.isSome_none, false_or,
        Bool.false_eq_true, if_false] at hfew
      have hone : ((candidates outcome).map (·.test)).count fact.test = 1 := by omega
      simp [hone]
  have hfilter : (candidates outcome).filter (fun fact =>
      !((candidates outcome).foldl indexTest ([], [])).2.contains fact.test) =
        singles (candidates outcome) := List.filter_congr hkept
  have hnodup := singles_nodup (candidates outcome)
  rw [← hfilter] at hnodup
  have heq := @filter_foldl_setItem _ _ _ _ ObservationFact.test
    (fun test => !((candidates outcome).foldl indexTest ([], [])).2.contains test) _ hnodup
  rw [hfilter] at heq
  rw [← heq, candidateSimulationObservations, ← candidates, foldl_indexTest_fst]

/-- A displayed name holds the last Test shown under it. -/
theorem lookup_selectedObservations (name : String) :
    (selectedObservations (candidateSimulationObservations outcome)).lookup name =
      ((singles (candidates outcome)).filter (name == ·.displayed)).getLast? := by
  rw [selectedObservations, lookup_foldl_setItem, candidateSimulationObservations_eq,
    List.filter_map, List.getLast?_map, Option.map_map, List.lookup_nil, Option.or_none]
  simp [Function.comp_def, ObservationFact.displayed]

/-- A name that one single Test is displayed under holds that Test. -/
theorem selected_eq_some {name : String} {fact : ObservationFact}
    (h : (selectedObservations (candidateSimulationObservations outcome)).lookup name =
      some fact) : fact ∈ singles (candidates outcome) ∧ fact.displayed = name := by
  rw [lookup_selectedObservations] at h
  obtain ⟨hmem, hname⟩ := List.mem_filter.mp (List.mem_of_getLast? h)
  exact ⟨hmem, (eq_of_beq hname).symm⟩

theorem selected_isSome {name : String} :
    ((selectedObservations (candidateSimulationObservations outcome)).lookup name).isSome ↔
      ∃ fact ∈ singles (candidates outcome), fact.displayed = name := by
  rw [lookup_selectedObservations, List.getLast?_isSome]
  constructor
  · intro hne
    obtain ⟨fact, hfact⟩ := List.exists_mem_of_ne_nil _ hne
    obtain ⟨hmem, hname⟩ := List.mem_filter.mp hfact
    exact ⟨fact, hmem, (eq_of_beq hname).symm⟩
  · rintro ⟨fact, hmem, rfl⟩
    exact List.ne_nil_of_mem (List.mem_filter.mpr ⟨hmem, beq_self_eq_true _⟩)

/-! ## What a Criterion requires -/

/-- The names a Criterion requires: of all registered Tests, of the unnamed run that stands for
them, or its own. -/
def requiredTests (params : SuiteParams) : List String :=
  if selectorOf params = "all" then
    if outcome.suite.defaultInvocation then ["default"] else outcome.suite.names
  else
    match textList params.requiredTests with
    | some names => distinct names
    | none => [selectorOf params]

/-- A Criterion that the one unnamed run of a default invocation is required for. -/
def requiresUnnamed (params : SuiteParams) : Bool :=
  selectorOf params = "all" && outcome.suite.defaultInvocation

/-- The observation is one of the Test a Criterion requires under a name. -/
def standsFor (params : SuiteParams) (name : String) (fact : ObservationFact) : Bool :=
  if requiresUnnamed outcome params then fact.test == none else fact.displayed == name

/-- The Tests with a candidate observation, as they are displayed. -/
def observedTests : List String := distinct ((candidates outcome).map (·.displayed))

/-- A change of a Criterion rests on the Tests the Criterion requires. -/
structure RestsOnSuite (params : SuiteParams) (change : GoalChange) : Prop where
  once : ∀ name ∈ requiredTests outcome params,
    ((candidates outcome).filter (standsFor outcome params name)).length = 1
  kept : ∀ name ∈ requiredTests outcome params, ∀ fact ∈ candidates outcome,
    standsFor outcome params name fact = true → unobservedInfrastructure fact.observation = false
  complete : change.met = true → outcome.complete = true
  passed : change.met = true → ∀ name ∈ requiredTests outcome params,
    ∀ fact ∈ candidates outcome, standsFor outcome params name fact = true → fact.Passed
  minimum : change.met = true → ∃ minimum,
    (contractOf outcome params).minimumTotal = some minimum ∧
      minimum ≤ (observedTests outcome).length
  failed : (∃ name ∈ requiredTests outcome params, ∃ fact ∈ candidates outcome,
    standsFor outcome params name fact = true ∧ fact.observation.strictGrade = .fail) →
      change.met = false

/-- Every required Test was run once, and what is shown for it was observed. -/
structure Judgeable (params : SuiteParams) : Prop where
  complete : outcome.complete = true
  candidate : outcome.manifest.target.role = "candidate"
  alone : requiresUnnamed outcome params = true →
    (singles (candidates outcome)).map (·.test) = [none]
  shown : ∀ name ∈ requiredTests outcome params,
    ∃ fact ∈ singles (candidates outcome), fact.displayed = name
  observed : ∀ name fact, selectorOf params = "all" ∨ name ∈ requiredTests outcome params →
    ((singles (candidates outcome)).filter (name == ·.displayed)).getLast? = some fact →
      unobservedInfrastructure fact.observation = false

/-- A Criterion requires the name `default`, and both the unnamed run and a Test of that name
were observed. -/
def Clashes (params : SuiteParams) : Prop :=
  requiresUnnamed outcome params = false ∧ "default" ∈ requiredTests outcome params ∧
    (∃ fact ∈ candidates outcome, fact.test = none) ∧
    ∃ fact ∈ candidates outcome, fact.test = some "default"

/-! ## Judging a Criterion -/

@[simp] theorem contractOf_selector (params : SuiteParams) :
    (contractOf outcome params).selector = selectorOf params := by
  unfold contractOf
  dsimp only
  split <;> rfl

@[simp] theorem contractOf_requiredTests (params : SuiteParams) :
    (contractOf outcome params).requiredTests = requiredTests outcome params := by
  unfold contractOf requiredTests resolveSimulationCriterionContract
  by_cases hall : selectorOf params = "all"
  · simp [hall]
  · cases hlist : textList params.requiredTests <;> simp [hall]

theorem requiredTests_nodup (params : SuiteParams) : (requiredTests outcome params).Nodup := by
  unfold requiredTests
  split
  · split
    · exact List.nodup_singleton _
    · exact outcome.suite.distinct
  · split
    · exact distinct_nodup _
    · exact List.nodup_singleton _

/-- The names a Criterion is judged on. -/
def judgedNames (params : SuiteParams) : List String :=
  sortedNames (if selectorOf params == "all" then
    (selectedObservations (candidateSimulationObservations outcome)).map (·.1)
    else requiredTests outcome params)

/-- What the judged names hold. -/
def judgedFacts (params : SuiteParams) : List ObservationFact :=
  (judgedNames outcome params).filterMap fun name =>
    (selectedObservations (candidateSimulationObservations outcome)).lookup name

theorem criterionObservations_eq_some (params : SuiteParams) {relevant : List ObservationFact} :
    criterionObservations (contractOf outcome params) outcome.suite
        (candidateSimulationObservations outcome)
        (selectedObservations (candidateSimulationObservations outcome)) = some relevant ↔
      (requiresUnnamed outcome params = true →
        (singles (candidates outcome)).map (·.test) = [none]) ∧
      (∀ name ∈ requiredTests outcome params,
        ∃ fact ∈ singles (candidates outcome), fact.displayed = name) ∧
      relevant = judgedFacts outcome params := by
  have halone : ((candidateSimulationObservations outcome).length ≠ 1 ∨
      (candidateSimulationObservations outcome).lookup none = none) ↔
        ¬ (singles (candidates outcome)).map (·.test) = [none] := by
    rw [candidateSimulationObservations_eq, List.length_map]
    match singles (candidates outcome) with
    | [] => simp
    | [fact] => cases htest : fact.test <;> simp [htest]
    | _ :: _ :: _ => simp
  have hshown : ((requiredTests outcome params).all fun name =>
      ((selectedObservations (candidateSimulationObservations outcome)).lookup name).isSome) =
        true ↔ ∀ name ∈ requiredTests outcome params,
          ∃ fact ∈ singles (candidates outcome), fact.displayed = name := by
    rw [List.all_eq_true]
    exact forall₂_congr fun name _ => selected_isSome outcome
  have hrefused : (selectorOf params == "all" && outcome.suite.defaultInvocation &&
      ((candidateSimulationObservations outcome).length != 1 ||
        ((candidateSimulationObservations outcome).lookup none).isNone)) = true ↔
      requiresUnnamed outcome params = true ∧
        ¬ (singles (candidates outcome)).map (·.test) = [none] := by
    rw [← halone]
    simp [requiresUnnamed]
  unfold criterionObservations
  rw [contractOf_selector, contractOf_requiredTests]
  split
  next h =>
    obtain ⟨hunnamed, hnot⟩ := hrefused.mp h
    simp [hunnamed, hnot]
  next h =>
    have halone : requiresUnnamed outcome params = true →
        (singles (candidates outcome)).map (·.test) = [none] := fun hunnamed =>
      not_not.mp fun hnot => h (hrefused.mpr ⟨hunnamed, hnot⟩)
    split
    next hall =>
      rw [Option.some.injEq, eq_comm, and_iff_right halone, and_iff_right (hshown.mp hall)]
      rfl
    next hall =>
      have hnot := mt hshown.mpr hall
      constructor
      · intro heq
        cases heq
      · rintro ⟨-, hall, -⟩
        exact absurd hall hnot

theorem mem_judgedFacts {params : SuiteParams} {fact : ObservationFact} :
    fact ∈ judgedFacts outcome params ↔ ∃ name, (selectorOf params = "all" ∨
        name ∈ requiredTests outcome params) ∧
      ((singles (candidates outcome)).filter (name == ·.displayed)).getLast? = some fact := by
  simp only [judgedFacts, List.mem_filterMap, judgedNames, sortedNames, List.mem_mergeSort,
    lookup_selectedObservations]
  refine exists_congr fun name => and_congr_left fun hlast => ?_
  by_cases hall : selectorOf params = "all"
  · have hsome : ((selectedObservations (candidateSimulationObservations outcome)).lookup
        name).isSome := by
      rw [lookup_selectedObservations, hlast]
      rfl
    obtain ⟨entry, hentry, hname⟩ := List.lookup_isSome_iff.mp hsome
    rw [if_pos (by simpa using hall)]
    exact iff_of_true (List.mem_map.mpr ⟨entry, hentry, (eq_of_beq hname).symm⟩) (.inl hall)
  · rw [if_neg (by simpa using hall), or_iff_right hall]

/-- A Criterion is judged exactly where it can be, from what its names hold. -/
theorem relevantObservations_eq_some (params : SuiteParams) {relevant : List ObservationFact}
    (hcomplete : outcome.complete = true)
    (hrole : outcome.manifest.target.role = "candidate") :
    relevantObservations outcome params = some relevant ↔
      Judgeable outcome params ∧ relevant = judgedFacts outcome params := by
  have hlost : ∀ facts : List ObservationFact,
      facts.any (unobservedInfrastructure ·.observation) = false ↔
        ∀ fact ∈ facts, unobservedInfrastructure fact.observation = false := fun facts => by
    rw [List.any_eq_false]
    exact forall₂_congr fun fact _ => by rw [Bool.not_eq_true]
  have hobserved : (∀ fact ∈ judgedFacts outcome params,
      unobservedInfrastructure fact.observation = false) ↔ ∀ name fact,
        selectorOf params = "all" ∨ name ∈ requiredTests outcome params →
        ((singles (candidates outcome)).filter (name == ·.displayed)).getLast? = some fact →
          unobservedInfrastructure fact.observation = false := by
    constructor
    · exact fun h name fact hname hlast =>
        h fact ((mem_judgedFacts outcome).mpr ⟨name, hname, hlast⟩)
    · intro h fact hfact
      obtain ⟨name, hname, hlast⟩ := (mem_judgedFacts outcome).mp hfact
      exact h name fact hname hlast
  unfold relevantObservations
  dsimp only
  constructor
  · intro h
    split at h
    · cases h
    next found hfound =>
      obtain ⟨halone, hshown, rfl⟩ := (criterionObservations_eq_some outcome params).mp hfound
      split at h
      · cases h
      next hany =>
        rw [Bool.not_eq_true, hlost, hobserved] at hany
        exact ⟨⟨hcomplete, hrole, halone, hshown, hany⟩, (Option.some.inj h).symm⟩
  · rintro ⟨hjudged, rfl⟩
    rw [(criterionObservations_eq_some outcome params).mpr ⟨hjudged.alone, hjudged.shown, rfl⟩]
    dsimp only
    rw [(hlost _).mpr (hobserved.mpr hjudged.observed), if_neg Bool.false_ne_true]

/-! ## One observation for each required Test -/

theorem test_eq_of_displayed {params : SuiteParams} (hclash : ¬ Clashes outcome params)
    (hunnamed : requiresUnnamed outcome params = false) {fact other : ObservationFact}
    (hfact : fact ∈ candidates outcome) (hother : other ∈ candidates outcome)
    (hrequired : fact.displayed ∈ requiredTests outcome params)
    (h : other.displayed = fact.displayed) : other.test = fact.test := by
  by_contra hne
  rcases testName_inj h hne with ⟨hnone, hdefault⟩ | ⟨hdefault, hnone⟩
  · have hname : fact.displayed = "default" := by rw [ObservationFact.displayed, hdefault]; rfl
    rw [hname] at hrequired
    exact hclash ⟨hunnamed, hrequired, ⟨other, hother, hnone⟩, fact, hfact, hdefault⟩
  · have hname : fact.displayed = "default" := by rw [ObservationFact.displayed, hnone]; rfl
    rw [hname] at hrequired
    exact hclash ⟨hunnamed, hrequired, ⟨fact, hfact, hnone⟩, other, hother, hdefault⟩

/-- Without a clash, one candidate observation stands for a required Test, and the Criterion is
judged from it. -/
theorem standing_of_judgeable {params : SuiteParams} (hjudged : Judgeable outcome params)
    (hclash : ¬ Clashes outcome params) {name : String}
    (hname : name ∈ requiredTests outcome params) :
    ∃ fact, (candidates outcome).filter (standsFor outcome params name) = [fact] ∧
      ((singles (candidates outcome)).filter (name == ·.displayed)).getLast? = some fact := by
  obtain ⟨fact, hsingle, hshown⟩ := hjudged.shown name hname
  refine ⟨fact, ?_⟩
  have hmem := mem_of_single hsingle
  cases hunnamed : requiresUnnamed outcome params with
  | true =>
    have hall := hjudged.alone hunnamed
    obtain ⟨only, honly, htest⟩ := List.map_eq_singleton_iff.mp hall
    rw [honly, List.mem_singleton] at hsingle
    subst hsingle
    constructor
    · have honce := filter_test_of_single (show fact ∈ singles (candidates outcome) by
        rw [honly]
        exact List.mem_singleton_self _)
      rw [htest] at honce
      rw [← honce]
      exact List.filter_congr fun other _ => by simp [standsFor, hunnamed]
    · rw [honly, List.filter_cons_of_pos (by simpa using hshown.symm)]
      rfl
  | false =>
    have hstands : ∀ other ∈ candidates outcome,
        (other.displayed == name) = (other.test == fact.test) := by
      intro other hother
      rw [Bool.eq_iff_iff, beq_iff_eq, beq_iff_eq]
      constructor
      · intro heq
        exact test_eq_of_displayed outcome hclash hunnamed hmem hother (hshown ▸ hname)
          (heq.trans hshown.symm)
      · intro heq
        rw [← hshown, ObservationFact.displayed, heq]
        rfl
    have honce := filter_test_of_single hsingle
    rw [← List.filter_congr hstands] at honce
    constructor
    · rw [← honce]
      exact List.filter_congr fun other _ => by simp [standsFor, hunnamed]
    · have hlast : (singles (candidates outcome)).filter (name == ·.displayed) = [fact] := by
        have hsub : ((singles (candidates outcome)).filter (name == ·.displayed)).Sublist
            ((candidates outcome).filter (·.displayed == name)) := by
          rw [List.filter_congr fun other _ => Bool.beq_comm]
          exact List.Sublist.filter _ List.filter_sublist
        rw [honce, List.sublist_singleton] at hsub
        refine hsub.resolve_left (List.ne_nil_of_mem (a := fact) ?_)
        exact List.mem_filter.mpr ⟨hsingle, by simpa using hshown.symm⟩
      rw [hlast]
      rfl

/-! ## The observed Tests -/

theorem judgedNames_nodup (params : SuiteParams) : (judgedNames outcome params).Nodup := by
  refine (List.mergeSort_perm _ _).nodup_iff.mpr ?_
  split
  · exact nodup_foldl_setItem _ _ _ List.nodup_nil
  · exact requiredTests_nodup outcome params

theorem displayed_judgedFacts (params : SuiteParams) :
    ((judgedFacts outcome params).map (·.displayed)).Sublist (judgedNames outcome params) := by
  unfold judgedFacts
  induction judgedNames outcome params with
  | nil => exact List.Sublist.slnil
  | cons name rest ih =>
    rw [List.filterMap_cons]
    split
    · exact ih.cons _
    next fact hfact =>
      rw [List.map_cons, (selected_eq_some outcome hfact).2]
      exact ih.cons_cons _

/-- A Criterion is judged from no more observations than there are observed Tests. -/
theorem length_judgedFacts_le (params : SuiteParams) :
    (judgedFacts outcome params).length ≤ (observedTests outcome).length := by
  have hnodup := (displayed_judgedFacts outcome params).nodup (judgedNames_nodup outcome params)
  have hsubset : (judgedFacts outcome params).map (·.displayed) ⊆ observedTests outcome := by
    intro name hname
    obtain ⟨fact, hfact, rfl⟩ := List.mem_map.mp hname
    obtain ⟨name, -, hlast⟩ := (mem_judgedFacts outcome).mp hfact
    have hsingle := List.mem_of_mem_filter (List.mem_of_getLast? hlast)
    exact mem_distinct.mpr (List.mem_map_of_mem (mem_of_single hsingle))
  calc (judgedFacts outcome params).length
      = ((judgedFacts outcome params).map (·.displayed)).length := (List.length_map _).symm
    _ ≤ (observedTests outcome).length := (hnodup.subperm hsubset).length_le

theorem collected_of_fact {collected : List (WorkItem × List ResultObservation)}
    {facts : List ObservationFact} (h : collectedResultFacts collected = .ok facts) :
    ∀ fact ∈ facts, ∃ entry ∈ collected, fact.observation ∈ entry.2 := by
  induction collected generalizing facts with
  | nil =>
    cases h
    exact fun fact hfact => absurd hfact List.not_mem_nil
  | cons entry rest ih =>
    obtain ⟨item, results⟩ := entry
    obtain ⟨own, hown, h⟩ := except_bind_eq_ok.mp h
    obtain ⟨others, hothers, h⟩ := except_bind_eq_ok.mp h
    cases h
    intro fact hfact
    rcases List.mem_append.mp hfact with hfact | hfact
    · obtain ⟨bound, hbound, hown⟩ := except_bind_eq_ok.mp hown
      cases hown
      obtain ⟨pair, hpair, rfl⟩ := List.mem_map.mp hfact
      exact ⟨(item, results), List.mem_cons_self, (List.of_mem_zip hpair).1⟩
    · obtain ⟨entry, hentry, hmem⟩ := ih hothers fact hfact
      exact ⟨entry, List.mem_cons_of_mem _ hentry, hmem⟩

/-- Every observation of a campaign whose aggregate grade is a pass passed. -/
theorem passed_of_aggregate (h : outcome.aggregateGrade = "pass") :
    ∀ fact ∈ outcome.facts, fact.Passed := by
  intro fact hfact
  obtain ⟨entry, hentry, hmem⟩ := collected_of_fact outcome.built fact hfact
  have hgrade := grades_of_aggregate (outcome.gradedBy ▸ h) _ (List.mem_map_of_mem hentry)
  exact passed_of_strictGrade (strictGrade_of_resultGrade hgrade _ hmem)

/-! ## The changes of a campaign -/

section Entered

variable (floats : FloatArithmetic) (criteria : Dict String SuiteParams)
  (rows : List EvidenceRow)

/-- The change of a Criterion that is judged. -/
def judgedChange (key : String) (params : SuiteParams) : GoalChange :=
  setCriterion floats params.toCriterionParams key
    (simulationCriterionMet outcome (contractOf outcome params) (judgedFacts outcome params))
    { evidence := .simulation (simulationDetail outcome (judgedFacts outcome params))
      testRuns := rowsOf rows (judgedFacts outcome params)
      outcomesOnly := false }

/-- A campaign enters one change for each of its Criteria that it can judge. -/
theorem mem_simulationChanges {change : GoalChange} :
    change ∈ simulationChanges floats outcome criteria rows ↔
      ∃ key ∈ matchingSimulationKeys outcome criteria, ∃ params,
        criteria.lookup key = some params ∧ Judgeable outcome params ∧
          change = judgedChange outcome floats rows key params := by
  unfold simulationChanges
  by_cases hjudges : outcome.complete = true ∧ outcome.manifest.target.role = "candidate"
  · obtain ⟨hcomplete, hrole⟩ := hjudges
    rw [if_neg (by simp [hcomplete, hrole]), List.mem_filterMap]
    refine exists_congr fun key => and_congr_right fun _ => ?_
    unfold simulationChange
    constructor
    · intro h
      split at h
      · cases h
      next params hparams =>
        obtain ⟨relevant, hrelevant, rfl⟩ := Option.map_eq_some_iff.mp h
        obtain ⟨hjudged, rfl⟩ :=
          (relevantObservations_eq_some outcome params hcomplete hrole).mp hrelevant
        exact ⟨params, hparams, hjudged, rfl⟩
    · rintro ⟨params, hparams, hjudged, rfl⟩
      rw [hparams]
      dsimp only
      rw [(relevantObservations_eq_some outcome params hcomplete hrole).mpr ⟨hjudged, rfl⟩]
      rfl
  · have hnone : outcome.complete = false ∨ outcome.manifest.target.role ≠ "candidate" := by
      rw [not_and_or, Bool.not_eq_true] at hjudges
      exact hjudges
    rw [if_pos hnone]
    constructor
    · intro h
      cases h
    · rintro ⟨key, -, params, -, hjudged, -⟩
      exact absurd ⟨hjudged.complete, hjudged.candidate⟩ hjudges

/-- What the verdict of a judged Criterion takes. -/
theorem met_judgedChange {key : String} {params : SuiteParams}
    (h : (judgedChange outcome floats rows key params).met = true) :
    (∃ minimum, (contractOf outcome params).minimumTotal = some minimum ∧
      minimum ≤ (judgedFacts outcome params).length) ∧
    ((∀ fact ∈ outcome.facts, fact.Passed) ∨
      ∀ fact ∈ judgedFacts outcome params, fact.Passed) := by
  have hmet : simulationCriterionMet outcome (contractOf outcome params)
      (judgedFacts outcome params) = true := (Bool.and_eq_true _ _ ▸ h).1
  unfold simulationCriterionMet at hmet
  dsimp only at hmet
  cases hminimum : (contractOf outcome params).minimumTotal with
  | none =>
    rw [hminimum] at hmet
    split at hmet
    · cases hmet
    · cases hmet
  | some minimum =>
    rw [hminimum] at hmet
    split at hmet
    · simp only [Bool.and_eq_true, beq_iff_eq, decide_eq_true_eq] at hmet
      exact ⟨⟨minimum, rfl, hmet.1.1⟩, .inl (passed_of_aggregate outcome hmet.2)⟩
    · simp only [Bool.and_eq_true, List.all_eq_true, decide_eq_true_eq] at hmet
      exact ⟨⟨minimum, rfl, hmet.1⟩, .inr fun fact hfact => observationPassed_iff.mp
        (hmet.2 fact hfact)⟩

theorem mem_facts_of_candidates {fact : ObservationFact} (h : fact ∈ candidates outcome) :
    fact ∈ outcome.facts := List.mem_of_mem_filter h

theorem restsOnSuite_of_judgeable {key : String} {params : SuiteParams}
    (hjudged : Judgeable outcome params) (hclash : ¬ Clashes outcome params) :
    RestsOnSuite outcome params (judgedChange outcome floats rows key params) := by
  have hstanding : ∀ name ∈ requiredTests outcome params, ∀ fact ∈ candidates outcome,
      standsFor outcome params name fact = true → fact ∈ judgedFacts outcome params ∧
        unobservedInfrastructure fact.observation = false := by
    intro name hname fact hfact hstands
    obtain ⟨only, honly, hlast⟩ := standing_of_judgeable outcome hjudged hclash hname
    have hmem := List.mem_filter.mpr ⟨hfact, hstands⟩
    rw [honly, List.mem_singleton] at hmem
    subst hmem
    exact ⟨(mem_judgedFacts outcome).mpr ⟨name, .inr hname, hlast⟩,
      hjudged.observed name fact (.inr hname) hlast⟩
  have hpassed : (judgedChange outcome floats rows key params).met = true →
      ∀ name ∈ requiredTests outcome params, ∀ fact ∈ candidates outcome,
        standsFor outcome params name fact = true → fact.Passed := by
    intro hmet name hname fact hfact hstands
    rcases (met_judgedChange outcome floats rows hmet).2 with hall | hjudgedFacts
    · exact hall fact (mem_facts_of_candidates outcome hfact)
    · exact hjudgedFacts fact (hstanding name hname fact hfact hstands).1
  exact
    { once := fun name hname => by
        obtain ⟨only, honly, -⟩ := standing_of_judgeable outcome hjudged hclash hname
        rw [honly]
        rfl
      kept := fun name hname fact hfact hstands => (hstanding name hname fact hfact hstands).2
      complete := fun _ => hjudged.complete
      passed := hpassed
      minimum := fun hmet => by
        obtain ⟨minimum, hminimum, hle⟩ := (met_judgedChange outcome floats rows hmet).1
        have hlength := length_judgedFacts_le outcome params
        exact ⟨minimum, hminimum, by omega⟩
      failed := by
        rintro ⟨name, hname, fact, hfact, hstands, hfail⟩
        by_contra hmet
        rw [Bool.not_eq_false] at hmet
        exact not_passed_of_fail hfail (hpassed hmet name hname fact hfact hstands) }

/-- Two observations stand for `default` where it clashes. -/
theorem not_once_of_clashes {params : SuiteParams} (hclash : Clashes outcome params)
    (honce : ∀ name ∈ requiredTests outcome params,
      ((candidates outcome).filter (standsFor outcome params name)).length = 1) : False := by
  obtain ⟨hunnamed, hname, ⟨unnamed, hmem, htest⟩, named, hnamed, hdefault⟩ := hclash
  obtain ⟨only, honly⟩ := List.length_eq_one_iff.mp (honce "default" hname)
  have hfirst : unnamed ∈ (candidates outcome).filter (standsFor outcome params "default") :=
    List.mem_filter.mpr ⟨hmem, by
      simp [standsFor, hunnamed, ObservationFact.displayed, htest, testName]⟩
  have hsecond : named ∈ (candidates outcome).filter (standsFor outcome params "default") :=
    List.mem_filter.mpr ⟨hnamed, by
      simp [standsFor, hunnamed, ObservationFact.displayed, hdefault, testName]⟩
  rw [honly, List.mem_singleton] at hfirst hsecond
  rw [hfirst, ← hsecond, hdefault] at htest
  cases htest

/-- Every change of a simulation Criterion rests on the Tests that the Criterion requires, if and
only if no Criterion that can be judged requires `default` where the unnamed run and a Test of that
name were both observed. -/
theorem suite_judged_iff :
    (∀ change ∈ simulationChanges floats outcome criteria rows, ∀ params,
      criteria.lookup change.key = some params → RestsOnSuite outcome params change) ↔
    ∀ key ∈ matchingSimulationKeys outcome criteria, ∀ params,
      criteria.lookup key = some params → Judgeable outcome params →
        ¬ Clashes outcome params := by
  constructor
  · intro hrests key hkey params hparams hjudged hclash
    have hchange := hrests (judgedChange outcome floats rows key params)
      ((mem_simulationChanges outcome floats criteria rows).mpr
        ⟨key, hkey, params, hparams, hjudged, rfl⟩) params hparams
    exact not_once_of_clashes outcome hclash hchange.once
  · intro hclash change hchange params hparams
    obtain ⟨key, hkey, found, hfound, hjudged, rfl⟩ :=
      (mem_simulationChanges outcome floats criteria rows).mp hchange
    obtain rfl : found = params := Option.some.inj (hfound.symm.trans hparams)
    exact restsOnSuite_of_judgeable outcome floats rows hjudged
      (hclash key hkey found hfound hjudged)

end Entered

end Judged

/-! ## An unnamed run beside a Test called default -/

local instance suiteDigests : Digests where
  declaredInputs _ := "sha256:0"
  contents _ := "sha256:1"

def counterTarget : TargetDocument :=
  ⟨"acme:demo:counter:1.0", "sim", "sim", "demo", none, "candidate", "sim"⟩

/-- An unnamed invocation with one seed. -/
def seededItem (workItemId : String) (seed : Nat) : WorkItem :=
  ⟨workItemId, "candidate", none, counterTarget, [⟨none, none, some seed, [], []⟩]⟩

def crashedRun : ResultObservation := ⟨none, .crash, some .design, .notObserved, .notObserved, none⟩

def passedTest : ResultObservation := ⟨some "default", .completed, none, .pass, .clean, none⟩

/-- The first seed crashes before a Test is reported, the second one passes a discovered Test
`default`, whose name is reserved: it stays under the unnamed invocation. -/
def seededOutcome : SuiteOutcome where
  manifest := ⟨"campaign-1", counterTarget, [seededItem "item-1" 1, seededItem "item-2" 2],
    by decide⟩
  authenticated := true
  collected := [(seededItem "item-1" 1, [crashedRun]), (seededItem "item-2" 2, [passedTest])]
  planned := by simp
  accepted := by simp [crashedRun, passedTest, ResultObservation.valid]
  facts := [⟨"item-1", "candidate", none, counterTarget, crashedRun, "<default>@1", "sha256:0"⟩,
    ⟨"item-2", "candidate", none, counterTarget, passedTest, "<default>@2", "sha256:0"⟩]
  built := rfl
  named := by simp
  once := by simp
  complete := true
  aggregateGrade := "fail"
  manifestSha256 := "sha256:2"
  factsSha256 := "sha256:3"
  prerequisites := []
  coverageReference := none
  suite := ⟨[], true, List.nodup_nil, fun _ => rfl⟩
  gradedBy := rfl

/-- A Criterion that requires the name `default`. -/
def defaultParams : SuiteParams :=
  { target := none, targetSelector := none, test := none, thresholds := [], baselineTarget := none,
    baselineRef := none, metrics := [], testSelector := .null, selector := .text "default",
    requiredTests := .null, minimumTotal := .absent }

def defaultCriteria : Dict String SuiteParams := AList.singleton "sim_pass" defaultParams

def noFloats : FloatArithmetic where
  percent _ _ _ := .undefined
  cyclePercent _ _ := .undefined
  ofText _ := none

def passedFact : ObservationFact :=
  ⟨"item-2", "candidate", none, counterTarget, passedTest, "<default>@2", "sha256:0"⟩

theorem judgeable_seeded : Judgeable seededOutcome defaultParams := by
  have hlast : ((singles (candidates seededOutcome)).filter ("default" == ·.displayed)).getLast? =
      some passedFact := rfl
  have hname : ∀ name ∈ requiredTests seededOutcome defaultParams, name = "default" :=
    fun name hname => List.mem_singleton.mp hname
  refine ⟨rfl, rfl, fun hunnamed => absurd hunnamed (by decide), ?_, ?_⟩
  · intro name hrequired
    rw [hname name hrequired]
    exact ⟨passedFact, List.mem_of_mem_filter (List.mem_of_getLast? hlast), rfl⟩
  · intro name fact hjudged hfact
    rcases hjudged with hall | hrequired
    · exact absurd hall (by decide)
    · rw [hname name hrequired, hlast] at hfact
      rw [← Option.some.inj hfact]
      rfl

theorem judgedFacts_seeded : judgedFacts seededOutcome defaultParams = [passedFact] := by
  have hnames : judgedNames seededOutcome defaultParams = ["default"] := List.mergeSort_singleton _
  rw [judgedFacts, hnames]
  rfl

/-- The Criterion is met by the second seed alone, although the first one, displayed under the
same name, failed in the design. -/
theorem crashed_default_passed_over :
    ∃ change ∈ simulationChanges noFloats seededOutcome defaultCriteria [],
      change.key = "sim_pass" ∧ change.met = true ∧
      ((candidates seededOutcome).filter (standsFor seededOutcome defaultParams "default")).map
        (·.observation.strictGrade) = [.fail, .pass] ∧
      ¬ RestsOnSuite seededOutcome defaultParams change := by
  have hmet : simulationCriterionMet seededOutcome (contractOf seededOutcome defaultParams)
      [passedFact] = true := by decide
  refine ⟨judgedChange seededOutcome noFloats [] "sim_pass" defaultParams,
    (mem_simulationChanges seededOutcome noFloats defaultCriteria []).mpr
      ⟨"sim_pass", by decide, defaultParams, rfl, judgeable_seeded, rfl⟩, rfl, ?_, by decide, ?_⟩
  · rw [judgedChange, judgedFacts_seeded, setCriterion, hmet]
    rfl
  · intro hrests
    have honce := hrests.once "default" (by decide)
    revert honce
    decide

end Booley.Simulation
